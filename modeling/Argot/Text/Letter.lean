import Argot.Text.Rune

set_option autoImplicit false

/-!
# Letter case

Upper-case and lower-case letters and the simple case folding of Unicode 15.0.  The
tables list runs: first code point, last code point and the step between neighbours;
a folding run also gives the image of its first member, and the other members keep
their distance to it.

Normative source: SPEC_FULL §12 (completion ranking).
-/

namespace Argot

namespace Letter

/-- The letters of category Lu. -/
def upperRuns : List (Nat × Nat × Nat) :=
  [(0x41, 0x5A, 0x1), (0xC0, 0xD6, 0x1), (0xD8, 0xDE, 0x1), (0x100, 0x136, 0x2),
    (0x139, 0x147, 0x2), (0x14A, 0x178, 0x2), (0x179, 0x17D, 0x2), (0x181, 0x182, 0x1),
    (0x184, 0x186, 0x2), (0x187, 0x189, 0x2), (0x18A, 0x18B, 0x1), (0x18E, 0x191, 0x1),
    (0x193, 0x194, 0x1), (0x196, 0x198, 0x1), (0x19C, 0x19D, 0x1), (0x19F, 0x1A0, 0x1),
    (0x1A2, 0x1A6, 0x2), (0x1A7, 0x1A9, 0x2), (0x1AC, 0x1AE, 0x2), (0x1AF, 0x1B1, 0x2),
    (0x1B2, 0x1B3, 0x1), (0x1B5, 0x1B7, 0x2), (0x1B8, 0x1B8, 0x1), (0x1BC, 0x1BC, 0x1),
    (0x1C4, 0x1C4, 0x1), (0x1C7, 0x1C7, 0x1), (0x1CA, 0x1CA, 0x1), (0x1CD, 0x1DB, 0x2),
    (0x1DE, 0x1EE, 0x2), (0x1F1, 0x1F1, 0x1), (0x1F4, 0x1F6, 0x2), (0x1F7, 0x1F8, 0x1),
    (0x1FA, 0x232, 0x2), (0x23A, 0x23B, 0x1), (0x23D, 0x23E, 0x1), (0x241, 0x243, 0x2),
    (0x244, 0x246, 0x1), (0x248, 0x24E, 0x2), (0x370, 0x372, 0x2), (0x376, 0x376, 0x1),
    (0x37F, 0x37F, 0x1), (0x386, 0x388, 0x2), (0x389, 0x38A, 0x1), (0x38C, 0x38E, 0x2),
    (0x38F, 0x391, 0x2), (0x392, 0x3A1, 0x1), (0x3A3, 0x3AB, 0x1), (0x3CF, 0x3CF, 0x1),
    (0x3D2, 0x3D4, 0x1), (0x3D8, 0x3EE, 0x2), (0x3F4, 0x3F4, 0x1), (0x3F7, 0x3F9, 0x2),
    (0x3FA, 0x3FA, 0x1), (0x3FD, 0x42F, 0x1), (0x460, 0x480, 0x2), (0x48A, 0x4C0, 0x2),
    (0x4C1, 0x4CD, 0x2), (0x4D0, 0x52E, 0x2), (0x531, 0x556, 0x1), (0x10A0, 0x10C5, 0x1),
    (0x10C7, 0x10C7, 0x1), (0x10CD, 0x10CD, 0x1), (0x13A0, 0x13F5, 0x1), (0x1C90, 0x1CBA, 0x1),
    (0x1CBD, 0x1CBF, 0x1), (0x1E00, 0x1E94, 0x2), (0x1E9E, 0x1EFE, 0x2), (0x1F08, 0x1F0F, 0x1),
    (0x1F18, 0x1F1D, 0x1), (0x1F28, 0x1F2F, 0x1), (0x1F38, 0x1F3F, 0x1), (0x1F48, 0x1F4D, 0x1),
    (0x1F59, 0x1F5F, 0x2), (0x1F68, 0x1F6F, 0x1), (0x1FB8, 0x1FBB, 0x1), (0x1FC8, 0x1FCB, 0x1),
    (0x1FD8, 0x1FDB, 0x1), (0x1FE8, 0x1FEC, 0x1), (0x1FF8, 0x1FFB, 0x1), (0x2102, 0x2102, 0x1),
    (0x2107, 0x2107, 0x1), (0x210B, 0x210D, 0x1), (0x2110, 0x2112, 0x1), (0x2115, 0x2115, 0x1),
    (0x2119, 0x211D, 0x1), (0x2124, 0x212A, 0x2), (0x212B, 0x212D, 0x1), (0x2130, 0x2133, 0x1),
    (0x213E, 0x213F, 0x1), (0x2145, 0x2145, 0x1), (0x2183, 0x2183, 0x1), (0x2C00, 0x2C2F, 0x1),
    (0x2C60, 0x2C62, 0x2), (0x2C63, 0x2C64, 0x1), (0x2C67, 0x2C6D, 0x2), (0x2C6E, 0x2C70, 0x1),
    (0x2C72, 0x2C72, 0x1), (0x2C75, 0x2C75, 0x1), (0x2C7E, 0x2C80, 0x1), (0x2C82, 0x2CE2, 0x2),
    (0x2CEB, 0x2CED, 0x2), (0x2CF2, 0x2CF2, 0x1), (0xA640, 0xA66C, 0x2), (0xA680, 0xA69A, 0x2),
    (0xA722, 0xA72E, 0x2), (0xA732, 0xA76E, 0x2), (0xA779, 0xA77D, 0x2), (0xA77E, 0xA786, 0x2),
    (0xA78B, 0xA78D, 0x2), (0xA790, 0xA792, 0x2), (0xA796, 0xA7AA, 0x2), (0xA7AB, 0xA7AE, 0x1),
    (0xA7B0, 0xA7B4, 0x1), (0xA7B6, 0xA7C4, 0x2), (0xA7C5, 0xA7C7, 0x1), (0xA7C9, 0xA7C9, 0x1),
    (0xA7D0, 0xA7D0, 0x1), (0xA7D6, 0xA7D8, 0x2), (0xA7F5, 0xA7F5, 0x1), (0xFF21, 0xFF3A, 0x1),
    (0x10400, 0x10427, 0x1), (0x104B0, 0x104D3, 0x1), (0x10570, 0x1057A, 0x1),
    (0x1057C, 0x1058A, 0x1), (0x1058C, 0x10592, 0x1), (0x10594, 0x10595, 0x1),
    (0x10C80, 0x10CB2, 0x1), (0x118A0, 0x118BF, 0x1), (0x16E40, 0x16E5F, 0x1),
    (0x1D400, 0x1D419, 0x1), (0x1D434, 0x1D44D, 0x1), (0x1D468, 0x1D481, 0x1),
    (0x1D49C, 0x1D49E, 0x2), (0x1D49F, 0x1D49F, 0x1), (0x1D4A2, 0x1D4A2, 0x1),
    (0x1D4A5, 0x1D4A6, 0x1), (0x1D4A9, 0x1D4AC, 0x1), (0x1D4AE, 0x1D4B5, 0x1),
    (0x1D4D0, 0x1D4E9, 0x1), (0x1D504, 0x1D505, 0x1), (0x1D507, 0x1D50A, 0x1),
    (0x1D50D, 0x1D514, 0x1), (0x1D516, 0x1D51C, 0x1), (0x1D538, 0x1D539, 0x1),
    (0x1D53B, 0x1D53E, 0x1), (0x1D540, 0x1D544, 0x1), (0x1D546, 0x1D546, 0x1),
    (0x1D54A, 0x1D550, 0x1), (0x1D56C, 0x1D585, 0x1), (0x1D5A0, 0x1D5B9, 0x1),
    (0x1D5D4, 0x1D5ED, 0x1), (0x1D608, 0x1D621, 0x1), (0x1D63C, 0x1D655, 0x1),
    (0x1D670, 0x1D689, 0x1), (0x1D6A8, 0x1D6C0, 0x1), (0x1D6E2, 0x1D6FA, 0x1),
    (0x1D71C, 0x1D734, 0x1), (0x1D756, 0x1D76E, 0x1), (0x1D790, 0x1D7A8, 0x1),
    (0x1D7CA, 0x1D7CA, 0x1), (0x1E900, 0x1E921, 0x1)]

/-- The letters of category Ll. -/
def lowerRuns : List (Nat × Nat × Nat) :=
  [(0x61, 0x7A, 0x1), (0xB5, 0xB5, 0x1), (0xDF, 0xF6, 0x1), (0xF8, 0xFF, 0x1),
    (0x101, 0x137, 0x2), (0x138, 0x148, 0x2), (0x149, 0x177, 0x2), (0x17A, 0x17E, 0x2),
    (0x17F, 0x180, 0x1), (0x183, 0x185, 0x2), (0x188, 0x188, 0x1), (0x18C, 0x18D, 0x1),
    (0x192, 0x192, 0x1), (0x195, 0x195, 0x1), (0x199, 0x19B, 0x1), (0x19E, 0x19E, 0x1),
    (0x1A1, 0x1A5, 0x2), (0x1A8, 0x1AA, 0x2), (0x1AB, 0x1AD, 0x2), (0x1B0, 0x1B0, 0x1),
    (0x1B4, 0x1B6, 0x2), (0x1B9, 0x1BA, 0x1), (0x1BD, 0x1BF, 0x1), (0x1C6, 0x1C6, 0x1),
    (0x1C9, 0x1C9, 0x1), (0x1CC, 0x1DC, 0x2), (0x1DD, 0x1EF, 0x2), (0x1F0, 0x1F0, 0x1),
    (0x1F3, 0x1F5, 0x2), (0x1F9, 0x233, 0x2), (0x234, 0x239, 0x1), (0x23C, 0x23C, 0x1),
    (0x23F, 0x240, 0x1), (0x242, 0x242, 0x1), (0x247, 0x24F, 0x2), (0x250, 0x293, 0x1),
    (0x295, 0x2AF, 0x1), (0x371, 0x373, 0x2), (0x377, 0x377, 0x1), (0x37B, 0x37D, 0x1),
    (0x390, 0x390, 0x1), (0x3AC, 0x3CE, 0x1), (0x3D0, 0x3D1, 0x1), (0x3D5, 0x3D7, 0x1),
    (0x3D9, 0x3EF, 0x2), (0x3F0, 0x3F3, 0x1), (0x3F5, 0x3F5, 0x1), (0x3F8, 0x3F8, 0x1),
    (0x3FB, 0x3FC, 0x1), (0x430, 0x45F, 0x1), (0x461, 0x481, 0x2), (0x48B, 0x4BF, 0x2),
    (0x4C2, 0x4CE, 0x2), (0x4CF, 0x52F, 0x2), (0x560, 0x588, 0x1), (0x10D0, 0x10FA, 0x1),
    (0x10FD, 0x10FF, 0x1), (0x13F8, 0x13FD, 0x1), (0x1C80, 0x1C88, 0x1), (0x1D00, 0x1D2B, 0x1),
    (0x1D6B, 0x1D77, 0x1), (0x1D79, 0x1D9A, 0x1), (0x1E01, 0x1E95, 0x2), (0x1E96, 0x1E9D, 0x1),
    (0x1E9F, 0x1EFF, 0x2), (0x1F00, 0x1F07, 0x1), (0x1F10, 0x1F15, 0x1), (0x1F20, 0x1F27, 0x1),
    (0x1F30, 0x1F37, 0x1), (0x1F40, 0x1F45, 0x1), (0x1F50, 0x1F57, 0x1), (0x1F60, 0x1F67, 0x1),
    (0x1F70, 0x1F7D, 0x1), (0x1F80, 0x1F87, 0x1), (0x1F90, 0x1F97, 0x1), (0x1FA0, 0x1FA7, 0x1),
    (0x1FB0, 0x1FB4, 0x1), (0x1FB6, 0x1FB7, 0x1), (0x1FBE, 0x1FBE, 0x1), (0x1FC2, 0x1FC4, 0x1),
    (0x1FC6, 0x1FC7, 0x1), (0x1FD0, 0x1FD3, 0x1), (0x1FD6, 0x1FD7, 0x1), (0x1FE0, 0x1FE7, 0x1),
    (0x1FF2, 0x1FF4, 0x1), (0x1FF6, 0x1FF7, 0x1), (0x210A, 0x210A, 0x1), (0x210E, 0x210F, 0x1),
    (0x2113, 0x2113, 0x1), (0x212F, 0x212F, 0x1), (0x2134, 0x2134, 0x1), (0x2139, 0x2139, 0x1),
    (0x213C, 0x213D, 0x1), (0x2146, 0x2149, 0x1), (0x214E, 0x214E, 0x1), (0x2184, 0x2184, 0x1),
    (0x2C30, 0x2C5F, 0x1), (0x2C61, 0x2C61, 0x1), (0x2C65, 0x2C66, 0x1), (0x2C68, 0x2C6C, 0x2),
    (0x2C71, 0x2C73, 0x2), (0x2C74, 0x2C76, 0x2), (0x2C77, 0x2C7B, 0x1), (0x2C81, 0x2CE3, 0x2),
    (0x2CE4, 0x2CE4, 0x1), (0x2CEC, 0x2CEE, 0x2), (0x2CF3, 0x2CF3, 0x1), (0x2D00, 0x2D25, 0x1),
    (0x2D27, 0x2D27, 0x1), (0x2D2D, 0x2D2D, 0x1), (0xA641, 0xA66D, 0x2), (0xA681, 0xA69B, 0x2),
    (0xA723, 0xA72F, 0x2), (0xA730, 0xA731, 0x1), (0xA733, 0xA771, 0x2), (0xA772, 0xA778, 0x1),
    (0xA77A, 0xA77C, 0x2), (0xA77F, 0xA787, 0x2), (0xA78C, 0xA78E, 0x2), (0xA791, 0xA793, 0x2),
    (0xA794, 0xA795, 0x1), (0xA797, 0xA7A9, 0x2), (0xA7AF, 0xA7AF, 0x1), (0xA7B5, 0xA7C3, 0x2),
    (0xA7C8, 0xA7CA, 0x2), (0xA7D1, 0xA7D9, 0x2), (0xA7F6, 0xA7F6, 0x1), (0xA7FA, 0xA7FA, 0x1),
    (0xAB30, 0xAB5A, 0x1), (0xAB60, 0xAB68, 0x1), (0xAB70, 0xABBF, 0x1), (0xFB00, 0xFB06, 0x1),
    (0xFB13, 0xFB17, 0x1), (0xFF41, 0xFF5A, 0x1), (0x10428, 0x1044F, 0x1),
    (0x104D8, 0x104FB, 0x1), (0x10597, 0x105A1, 0x1), (0x105A3, 0x105B1, 0x1),
    (0x105B3, 0x105B9, 0x1), (0x105BB, 0x105BC, 0x1), (0x10CC0, 0x10CF2, 0x1),
    (0x118C0, 0x118DF, 0x1), (0x16E60, 0x16E7F, 0x1), (0x1D41A, 0x1D433, 0x1),
    (0x1D44E, 0x1D454, 0x1), (0x1D456, 0x1D467, 0x1), (0x1D482, 0x1D49B, 0x1),
    (0x1D4B6, 0x1D4B9, 0x1), (0x1D4BB, 0x1D4BD, 0x2), (0x1D4BE, 0x1D4C3, 0x1),
    (0x1D4C5, 0x1D4CF, 0x1), (0x1D4EA, 0x1D503, 0x1), (0x1D51E, 0x1D537, 0x1),
    (0x1D552, 0x1D56B, 0x1), (0x1D586, 0x1D59F, 0x1), (0x1D5BA, 0x1D5D3, 0x1),
    (0x1D5EE, 0x1D607, 0x1), (0x1D622, 0x1D63B, 0x1), (0x1D656, 0x1D66F, 0x1),
    (0x1D68A, 0x1D6A5, 0x1), (0x1D6C2, 0x1D6DA, 0x1), (0x1D6DC, 0x1D6E1, 0x1),
    (0x1D6FC, 0x1D714, 0x1), (0x1D716, 0x1D71B, 0x1), (0x1D736, 0x1D74E, 0x1),
    (0x1D750, 0x1D755, 0x1), (0x1D770, 0x1D788, 0x1), (0x1D78A, 0x1D78F, 0x1),
    (0x1D7AA, 0x1D7C2, 0x1), (0x1D7C4, 0x1D7C9, 0x1), (0x1D7CB, 0x1D7CB, 0x1),
    (0x1DF00, 0x1DF09, 0x1), (0x1DF0B, 0x1DF1E, 0x1), (0x1DF25, 0x1DF2A, 0x1),
    (0x1E922, 0x1E943, 0x1)]

/-- The characters that simple case folding changes. -/
def foldRuns : List (Nat × Nat × Nat × Nat) :=
  [(0x41, 0x5A, 0x1, 0x61), (0xB5, 0xB5, 0x1, 0x3BC), (0xC0, 0xD6, 0x1, 0xE0),
    (0xD8, 0xDE, 0x1, 0xF8), (0x100, 0x12E, 0x2, 0x101), (0x132, 0x136, 0x2, 0x133),
    (0x139, 0x147, 0x2, 0x13A), (0x14A, 0x176, 0x2, 0x14B), (0x178, 0x178, 0x1, 0xFF),
    (0x179, 0x17D, 0x2, 0x17A), (0x17F, 0x17F, 0x1, 0x73), (0x181, 0x181, 0x1, 0x253),
    (0x182, 0x184, 0x2, 0x183), (0x186, 0x186, 0x1, 0x254), (0x187, 0x187, 0x1, 0x188),
    (0x189, 0x18A, 0x1, 0x256), (0x18B, 0x18B, 0x1, 0x18C), (0x18E, 0x18E, 0x1, 0x1DD),
    (0x18F, 0x18F, 0x1, 0x259), (0x190, 0x190, 0x1, 0x25B), (0x191, 0x191, 0x1, 0x192),
    (0x193, 0x193, 0x1, 0x260), (0x194, 0x194, 0x1, 0x263), (0x196, 0x196, 0x1, 0x269),
    (0x197, 0x197, 0x1, 0x268), (0x198, 0x198, 0x1, 0x199), (0x19C, 0x19C, 0x1, 0x26F),
    (0x19D, 0x19D, 0x1, 0x272), (0x19F, 0x19F, 0x1, 0x275), (0x1A0, 0x1A4, 0x2, 0x1A1),
    (0x1A6, 0x1A6, 0x1, 0x280), (0x1A7, 0x1A7, 0x1, 0x1A8), (0x1A9, 0x1A9, 0x1, 0x283),
    (0x1AC, 0x1AC, 0x1, 0x1AD), (0x1AE, 0x1AE, 0x1, 0x288), (0x1AF, 0x1AF, 0x1, 0x1B0),
    (0x1B1, 0x1B2, 0x1, 0x28A), (0x1B3, 0x1B5, 0x2, 0x1B4), (0x1B7, 0x1B7, 0x1, 0x292),
    (0x1B8, 0x1B8, 0x1, 0x1B9), (0x1BC, 0x1BC, 0x1, 0x1BD), (0x1C4, 0x1C4, 0x1, 0x1C6),
    (0x1C5, 0x1C5, 0x1, 0x1C6), (0x1C7, 0x1C7, 0x1, 0x1C9), (0x1C8, 0x1C8, 0x1, 0x1C9),
    (0x1CA, 0x1CA, 0x1, 0x1CC), (0x1CB, 0x1DB, 0x2, 0x1CC), (0x1DE, 0x1EE, 0x2, 0x1DF),
    (0x1F1, 0x1F1, 0x1, 0x1F3), (0x1F2, 0x1F4, 0x2, 0x1F3), (0x1F6, 0x1F6, 0x1, 0x195),
    (0x1F7, 0x1F7, 0x1, 0x1BF), (0x1F8, 0x21E, 0x2, 0x1F9), (0x220, 0x220, 0x1, 0x19E),
    (0x222, 0x232, 0x2, 0x223), (0x23A, 0x23A, 0x1, 0x2C65), (0x23B, 0x23B, 0x1, 0x23C),
    (0x23D, 0x23D, 0x1, 0x19A), (0x23E, 0x23E, 0x1, 0x2C66), (0x241, 0x241, 0x1, 0x242),
    (0x243, 0x243, 0x1, 0x180), (0x244, 0x244, 0x1, 0x289), (0x245, 0x245, 0x1, 0x28C),
    (0x246, 0x24E, 0x2, 0x247), (0x345, 0x345, 0x1, 0x3B9), (0x370, 0x372, 0x2, 0x371),
    (0x376, 0x376, 0x1, 0x377), (0x37F, 0x37F, 0x1, 0x3F3), (0x386, 0x386, 0x1, 0x3AC),
    (0x388, 0x38A, 0x1, 0x3AD), (0x38C, 0x38C, 0x1, 0x3CC), (0x38E, 0x38F, 0x1, 0x3CD),
    (0x391, 0x3A1, 0x1, 0x3B1), (0x3A3, 0x3AB, 0x1, 0x3C3), (0x3C2, 0x3C2, 0x1, 0x3C3),
    (0x3CF, 0x3CF, 0x1, 0x3D7), (0x3D0, 0x3D0, 0x1, 0x3B2), (0x3D1, 0x3D1, 0x1, 0x3B8),
    (0x3D5, 0x3D5, 0x1, 0x3C6), (0x3D6, 0x3D6, 0x1, 0x3C0), (0x3D8, 0x3EE, 0x2, 0x3D9),
    (0x3F0, 0x3F0, 0x1, 0x3BA), (0x3F1, 0x3F1, 0x1, 0x3C1), (0x3F4, 0x3F4, 0x1, 0x3B8),
    (0x3F5, 0x3F5, 0x1, 0x3B5), (0x3F7, 0x3F7, 0x1, 0x3F8), (0x3F9, 0x3F9, 0x1, 0x3F2),
    (0x3FA, 0x3FA, 0x1, 0x3FB), (0x3FD, 0x3FF, 0x1, 0x37B), (0x400, 0x40F, 0x1, 0x450),
    (0x410, 0x42F, 0x1, 0x430), (0x460, 0x480, 0x2, 0x461), (0x48A, 0x4BE, 0x2, 0x48B),
    (0x4C0, 0x4C0, 0x1, 0x4CF), (0x4C1, 0x4CD, 0x2, 0x4C2), (0x4D0, 0x52E, 0x2, 0x4D1),
    (0x531, 0x556, 0x1, 0x561), (0x10A0, 0x10C5, 0x1, 0x2D00), (0x10C7, 0x10C7, 0x1, 0x2D27),
    (0x10CD, 0x10CD, 0x1, 0x2D2D), (0x13F8, 0x13FD, 0x1, 0x13F0), (0x1C80, 0x1C80, 0x1, 0x432),
    (0x1C81, 0x1C81, 0x1, 0x434), (0x1C82, 0x1C82, 0x1, 0x43E), (0x1C83, 0x1C84, 0x1, 0x441),
    (0x1C85, 0x1C85, 0x1, 0x442), (0x1C86, 0x1C86, 0x1, 0x44A), (0x1C87, 0x1C87, 0x1, 0x463),
    (0x1C88, 0x1C88, 0x1, 0xA64B), (0x1C90, 0x1CBA, 0x1, 0x10D0), (0x1CBD, 0x1CBF, 0x1, 0x10FD),
    (0x1E00, 0x1E94, 0x2, 0x1E01), (0x1E9B, 0x1E9B, 0x1, 0x1E61), (0x1E9E, 0x1E9E, 0x1, 0xDF),
    (0x1EA0, 0x1EFE, 0x2, 0x1EA1), (0x1F08, 0x1F0F, 0x1, 0x1F00), (0x1F18, 0x1F1D, 0x1, 0x1F10),
    (0x1F28, 0x1F2F, 0x1, 0x1F20), (0x1F38, 0x1F3F, 0x1, 0x1F30), (0x1F48, 0x1F4D, 0x1, 0x1F40),
    (0x1F59, 0x1F5F, 0x2, 0x1F51), (0x1F68, 0x1F6F, 0x1, 0x1F60), (0x1F88, 0x1F8F, 0x1, 0x1F80),
    (0x1F98, 0x1F9F, 0x1, 0x1F90), (0x1FA8, 0x1FAF, 0x1, 0x1FA0), (0x1FB8, 0x1FB9, 0x1, 0x1FB0),
    (0x1FBA, 0x1FBB, 0x1, 0x1F70), (0x1FBC, 0x1FBC, 0x1, 0x1FB3), (0x1FBE, 0x1FBE, 0x1, 0x3B9),
    (0x1FC8, 0x1FCB, 0x1, 0x1F72), (0x1FCC, 0x1FCC, 0x1, 0x1FC3), (0x1FD8, 0x1FD9, 0x1, 0x1FD0),
    (0x1FDA, 0x1FDB, 0x1, 0x1F76), (0x1FE8, 0x1FE9, 0x1, 0x1FE0), (0x1FEA, 0x1FEB, 0x1, 0x1F7A),
    (0x1FEC, 0x1FEC, 0x1, 0x1FE5), (0x1FF8, 0x1FF9, 0x1, 0x1F78), (0x1FFA, 0x1FFB, 0x1, 0x1F7C),
    (0x1FFC, 0x1FFC, 0x1, 0x1FF3), (0x2126, 0x2126, 0x1, 0x3C9), (0x212A, 0x212A, 0x1, 0x6B),
    (0x212B, 0x212B, 0x1, 0xE5), (0x2132, 0x2132, 0x1, 0x214E), (0x2160, 0x216F, 0x1, 0x2170),
    (0x2183, 0x2183, 0x1, 0x2184), (0x24B6, 0x24CF, 0x1, 0x24D0), (0x2C00, 0x2C2F, 0x1, 0x2C30),
    (0x2C60, 0x2C60, 0x1, 0x2C61), (0x2C62, 0x2C62, 0x1, 0x26B), (0x2C63, 0x2C63, 0x1, 0x1D7D),
    (0x2C64, 0x2C64, 0x1, 0x27D), (0x2C67, 0x2C6B, 0x2, 0x2C68), (0x2C6D, 0x2C6D, 0x1, 0x251),
    (0x2C6E, 0x2C6E, 0x1, 0x271), (0x2C6F, 0x2C6F, 0x1, 0x250), (0x2C70, 0x2C70, 0x1, 0x252),
    (0x2C72, 0x2C72, 0x1, 0x2C73), (0x2C75, 0x2C75, 0x1, 0x2C76), (0x2C7E, 0x2C7F, 0x1, 0x23F),
    (0x2C80, 0x2CE2, 0x2, 0x2C81), (0x2CEB, 0x2CED, 0x2, 0x2CEC), (0x2CF2, 0x2CF2, 0x1, 0x2CF3),
    (0xA640, 0xA66C, 0x2, 0xA641), (0xA680, 0xA69A, 0x2, 0xA681), (0xA722, 0xA72E, 0x2, 0xA723),
    (0xA732, 0xA76E, 0x2, 0xA733), (0xA779, 0xA77B, 0x2, 0xA77A), (0xA77D, 0xA77D, 0x1, 0x1D79),
    (0xA77E, 0xA786, 0x2, 0xA77F), (0xA78B, 0xA78B, 0x1, 0xA78C), (0xA78D, 0xA78D, 0x1, 0x265),
    (0xA790, 0xA792, 0x2, 0xA791), (0xA796, 0xA7A8, 0x2, 0xA797), (0xA7AA, 0xA7AA, 0x1, 0x266),
    (0xA7AB, 0xA7AB, 0x1, 0x25C), (0xA7AC, 0xA7AC, 0x1, 0x261), (0xA7AD, 0xA7AD, 0x1, 0x26C),
    (0xA7AE, 0xA7AE, 0x1, 0x26A), (0xA7B0, 0xA7B0, 0x1, 0x29E), (0xA7B1, 0xA7B1, 0x1, 0x287),
    (0xA7B2, 0xA7B2, 0x1, 0x29D), (0xA7B3, 0xA7B3, 0x1, 0xAB53), (0xA7B4, 0xA7C2, 0x2, 0xA7B5),
    (0xA7C4, 0xA7C4, 0x1, 0xA794), (0xA7C5, 0xA7C5, 0x1, 0x282), (0xA7C6, 0xA7C6, 0x1, 0x1D8E),
    (0xA7C7, 0xA7C9, 0x2, 0xA7C8), (0xA7D0, 0xA7D0, 0x1, 0xA7D1), (0xA7D6, 0xA7D8, 0x2, 0xA7D7),
    (0xA7F5, 0xA7F5, 0x1, 0xA7F6), (0xAB70, 0xABBF, 0x1, 0x13A0), (0xFF21, 0xFF3A, 0x1, 0xFF41),
    (0x10400, 0x10427, 0x1, 0x10428), (0x104B0, 0x104D3, 0x1, 0x104D8),
    (0x10570, 0x1057A, 0x1, 0x10597), (0x1057C, 0x1058A, 0x1, 0x105A3),
    (0x1058C, 0x10592, 0x1, 0x105B3), (0x10594, 0x10595, 0x1, 0x105BB),
    (0x10C80, 0x10CB2, 0x1, 0x10CC0), (0x118A0, 0x118BF, 0x1, 0x118C0),
    (0x16E40, 0x16E5F, 0x1, 0x16E60), (0x1E900, 0x1E921, 0x1, 0x1E922)]

/-- Whether `n` is a member of a run. -/
def inRun (n first last step : Nat) : Bool :=
  first ≤ n && n ≤ last && (n - first) % step == 0

/-- Whether the code point is an upper-case letter. -/
def isUpper (n : Nat) : Bool := upperRuns.any fun (first, last, step) => inRun n first last step

/-- Whether the code point is a lower-case letter. -/
def isLower (n : Nat) : Bool := lowerRuns.any fun (first, last, step) => inRun n first last step

/-- Simple case folding of a code point. -/
def fold (n : Nat) : Nat :=
  match foldRuns.find? fun (first, last, step, _) => inRun n first last step with
  | some (first, _, _, image) => image + (n - first)
  | none => n

/-- Two code points that differ at most in case. -/
def sameFold (m n : Nat) : Bool := fold m == fold n

end Letter
end Argot
