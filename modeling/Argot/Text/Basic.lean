set_option autoImplicit false

/-!
# Texts

A text is the list of its bytes.  Source programs, names, tokens and messages are
all texts.  Nothing here asks for well-formed UTF-8: a text that holds stray bytes
is still a text, and names are compared and ordered byte by byte.

`Argot.Text.Rune` gives the view of a text as a sequence of characters.

Normative source: SPEC_FULL §3 (symbols and strings).
-/

namespace Argot

/-- A text is the list of its bytes. -/
abbrev Text : Type := List UInt8

/-- The UTF-8 bytes of a string. -/
def Text.ofString (s : String) : Text := s.toUTF8.data.toList

instance : Coe String Text := ⟨Text.ofString⟩

namespace Text

/-- The byte of an ASCII character. -/
def byte (c : Char) : UInt8 := UInt8.ofNat c.toNat

/-- The text of a list of ASCII characters. -/
def ofAscii (cs : List Char) : Text := cs.map byte

/-- Decimal notation of a natural number. -/
def ofNat (n : Nat) : Text := ofAscii (Nat.toDigits 10 n)

/-- Decimal notation of an integer, with a leading minus when it is negative. -/
def ofInt : Int → Text
  | .ofNat n => ofNat n
  | .negSucc n => byte '-' :: ofNat (n + 1)

/-- Lower-case hexadecimal notation of `n`, padded with zeros to `width` digits. -/
def ofHex (width n : Nat) : Text :=
  let digits := Nat.toDigits 16 n
  ofAscii (List.replicate (width - digits.length) '0' ++ digits)

/-- Every byte as two hexadecimal digits. -/
def hexDump (t : Text) : Text := t.flatMap fun b => ofHex 2 b.toNat

/-- One space. -/
def space : Text := [0x20]

/-- One line feed. -/
def newline : Text := [0x0A]

/-! ## Searching -/

/-- What follows `lead` in a text that starts with it. -/
def after? : (lead : Text) → Text → Option Text
  | [], t => some t
  | _ :: _, [] => none
  | p :: ps, b :: t => if p = b then after? ps t else none

theorem after?_eq_some_iff {lead t rest : Text} :
    after? lead t = some rest ↔ t = lead ++ rest := by
  induction lead generalizing t with
  | nil => simp [after?]
  | cons p ps ih =>
    cases t with
    | nil => simp [after?]
    | cons b t =>
      by_cases h : p = b
      · simp [after?, h, ih]
      · simp [after?, h, Ne.symm h]

@[simp] theorem after?_append (lead rest : Text) : after? lead (lead ++ rest) = some rest :=
  after?_eq_some_iff.2 rfl

/-- Whether `needle` stands somewhere in the text. -/
def hasInfix (needle : Text) : Text → Bool
  | [] => needle.isEmpty
  | b :: t => (after? needle (b :: t)).isSome || hasInfix needle t

theorem hasInfix_iff {needle t : Text} : hasInfix needle t = true ↔ needle <:+: t := by
  induction t with
  | nil => simp [hasInfix]
  | cons b t ih =>
    have start : (after? needle (b :: t)).isSome = true ↔ needle <+: b :: t := by
      simp only [Option.isSome_iff_exists, after?_eq_some_iff]
      exact ⟨fun ⟨r, h⟩ => ⟨r, h.symm⟩, fun ⟨r, h⟩ => ⟨r, h.symm⟩⟩
    simp [hasInfix, start, ih, List.infix_cons_iff]

/-- The offset at which `needle` stands for the last time. -/
def lastOffset? (needle : Text) : Text → Option Nat
  | [] => if needle.isEmpty then some 0 else none
  | b :: t =>
    match lastOffset? needle t with
    | some i => some (i + 1)
    | none => if (after? needle (b :: t)).isSome then some 0 else none

/-- Drops the longest run of bytes at the end that satisfy `p`. -/
def dropEndWhile (p : UInt8 → Bool) (t : Text) : Text := (t.reverse.dropWhile p).reverse

/-- The pieces between the line feeds of a text; the piece after the last one is
left out when it is empty. -/
def lines : Text → List Text
  | [] => []
  | b :: t =>
    if b = 0x0A then [] :: lines t
    else
      match lines t with
      | [] => [[b]]
      | l :: ls => (b :: l) :: ls

/-- The texts one after another with `gap` between neighbours. -/
def join (gap : Text) : List Text → Text
  | [] => []
  | [t] => t
  | t :: u :: rest => t ++ gap ++ join gap (u :: rest)

end Text
end Argot
