import Argot.Number.Binary32
import Argot.Text.Basic

set_option autoImplicit false

/-!
# MessagePack

A binary format whose items start with a lead byte that says what kind of item it is and
often how long.  Lengths and words are big-endian.

The writers here choose the shortest form of an item.  The readers accept every form,
take one item off the front of a text and answer it with what follows; they look at no
byte beyond it.

Normative source: SPEC_FULL §12 (binary value encoding).
-/

namespace Argot.MessagePack

/-! ## Kinds of items -/

/-- The kinds of items. -/
inductive Kind where
  | nil
  | bool
  | int
  | uint
  | float32
  | float64
  | str
  | bin
  | array
  | map
  | ext
  /-- the one lead byte that starts nothing -/
  | invalid
  deriving DecidableEq, Repr, Inhabited

/-- The name of a kind. -/
def Kind.name : Kind → Text
  | .nil => "nil"
  | .bool => "bool"
  | .int => "int"
  | .uint => "uint"
  | .float32 => "float32"
  | .float64 => "float64"
  | .str => "str"
  | .bin => "bin"
  | .array => "array"
  | .map => "map"
  | .ext => "ext"
  | .invalid => "<invalid>"

/-- The kind of the item that a lead byte starts. -/
def Kind.ofLead (lead : UInt8) : Kind :=
  if lead ≤ 0x7F then .int
  else if lead ≤ 0x8F then .map
  else if lead ≤ 0x9F then .array
  else if lead ≤ 0xBF then .str
  else if lead = 0xC0 then .nil
  else if lead = 0xC1 then .invalid
  else if lead ≤ 0xC3 then .bool
  else if lead ≤ 0xC6 then .bin
  else if lead ≤ 0xC9 then .ext
  else if lead = 0xCA then .float32
  else if lead = 0xCB then .float64
  else if lead ≤ 0xCF then .uint
  else if lead ≤ 0xD3 then .int
  else if lead ≤ 0xD8 then .ext
  else if lead ≤ 0xDB then .str
  else if lead ≤ 0xDD then .array
  else if lead ≤ 0xDF then .map
  else .int

/-! ## Faults -/

/-- Why an item cannot be read. -/
inductive Fault where
  /-- the text ends too early -/
  | tooFewBytes
  /-- an item of another kind -/
  | mismatch (found wanted : Kind)
  /-- a lead byte that starts no item -/
  | invalidLead (lead : UInt8)
  /-- a number that does not fit one byte -/
  | overflow (n : Nat)
  /-- a negative number where none can be -/
  | negative (i : Int)
  deriving DecidableEq, Repr, Inhabited

/-- What a fault says. -/
def Fault.message : Fault → Text
  | .tooFewBytes => "msgp: too few bytes left to read object"
  | .mismatch found wanted =>
    Text.ofString "msgp: attempted to decode type \"" ++ found.name ++
      Text.ofString "\" with method for \"" ++ wanted.name ++ Text.ofString "\""
  | .invalidLead lead =>
    Text.ofString "msgp: unrecognized type prefix 0x" ++ Text.ofHex 1 lead.toNat
  | .overflow n => Text.ofString "msgp: " ++ Text.ofNat n ++ Text.ofString " overflows uint8"
  | .negative i =>
    Text.ofString "msgp: attempted to cast int " ++ Text.ofInt i ++ Text.ofString " to unsigned"

/-- The fault of finding this lead byte in front of an item that should be of kind
`wanted`. -/
def Fault.unexpected (wanted : Kind) (lead : UInt8) : Fault :=
  match Kind.ofLead lead with
  | .invalid => .invalidLead lead
  | found => .mismatch found wanted

/-! ## Words -/

/-- The lowest `width` bytes of a number, the highest of them first. -/
def bigEndian : (width : Nat) → Nat → Text
  | 0, _ => []
  | width + 1, n => UInt8.ofNat (n / Nat.pow 256 width % 256) :: bigEndian width n

/-- The number that bytes spell, the highest first. -/
def ofBigEndian (bytes : Text) : Nat := bytes.foldl (fun n b => n * 256 + b.toNat) 0

theorem foldl_bigEndian (width n start : Nat) :
    (bigEndian width n).foldl (fun m b => m * 256 + b.toNat) start =
      start * Nat.pow 256 width + n % Nat.pow 256 width := by
  induction width generalizing start with
  | zero => simp [bigEndian, Nat.mod_one]
  | succ width ih =>
    have digit : (UInt8.ofNat (n / Nat.pow 256 width % 256)).toNat =
        n / Nat.pow 256 width % 256 := by
      rw [UInt8.toNat_ofNat']
      exact Nat.mod_eq_of_lt (Nat.mod_lt _ (by decide))
    have split : Nat.pow 256 (width + 1) = Nat.pow 256 width * 256 := rfl
    rw [bigEndian, List.foldl_cons, ih, digit, split, Nat.mod_mul, Nat.add_mul, Nat.mul_assoc,
      Nat.mul_comm 256, Nat.mul_comm (n / Nat.pow 256 width % 256)]
    omega

/-- A number that fits is spelled by its bytes. -/
theorem ofBigEndian_bigEndian {width n : Nat} (h : n < Nat.pow 256 width) :
    ofBigEndian (bigEndian width n) = n := by
  rw [ofBigEndian, foldl_bigEndian, Nat.zero_mul, Nat.zero_add, Nat.mod_eq_of_lt h]

@[simp] theorem length_bigEndian (width n : Nat) : (bigEndian width n).length = width := by
  induction width with
  | zero => rfl
  | succ width ih => simp [bigEndian, ih]

/-- The first `n` bytes of a text. -/
def readBytes (n : Nat) (t : Text) : Except Fault (Text × Text) :=
  if t.length < n then .error .tooFewBytes else .ok (t.take n, t.drop n)

/-- A word of `width` bytes without a sign. -/
def readWord (width : Nat) (t : Text) : Except Fault (Nat × Text) := do
  let (bytes, rest) ← readBytes width t
  .ok (ofBigEndian bytes, rest)

theorem readBytes_append (bytes rest : Text) :
    readBytes bytes.length (bytes ++ rest) = .ok (bytes, rest) := by
  simp [readBytes]

theorem readWord_bigEndian {width n : Nat} (h : n < Nat.pow 256 width) (rest : Text) :
    readWord width (bigEndian width n ++ rest) = .ok (n, rest) := by
  have bytes := readBytes_append (bigEndian width n) rest
  rw [length_bigEndian] at bytes
  simp [readWord, bytes, ofBigEndian_bigEndian h, bind, Except.bind]

/-- A word of `width` bytes that stands for a number of either sign. -/
def readSignedWord (width : Nat) (t : Text) : Except Fault (Int × Text) := do
  let (n, rest) ← readWord width t
  let range := Nat.pow 256 width
  .ok (if 2 * n < range then (n : Int) else (n : Int) - range, rest)

/-! ## Writing -/

/-- The head of an array of `n` items. -/
def arrayHeader (n : Nat) : Text :=
  if n ≤ 15 then [UInt8.ofNat (0x90 + n)]
  else if n < 0x10000 then 0xDC :: bigEndian 2 n
  else 0xDD :: bigEndian 4 n

/-- A number of one byte. -/
def unsigned (n : UInt8) : Text := if n ≤ 0x7F then [n] else [0xCC, n]

/-- A truth value. -/
def boolean (b : Bool) : Text := [if b then 0xC3 else 0xC2]

/-- A floating point number. -/
def double (x : Binary64) : Text := 0xCB :: bigEndian 8 x.bits.toNat

/-- The head of a string of `n` bytes. -/
def stringHeader (n : Nat) : Text :=
  if n ≤ 31 then [UInt8.ofNat (0xA0 + n)]
  else if n < 0x100 then 0xD9 :: bigEndian 1 n
  else if n < 0x10000 then 0xDA :: bigEndian 2 n
  else 0xDB :: bigEndian 4 n

/-- A string. -/
def string (s : Text) : Text := stringHeader s.length ++ s

/-! ## Reading -/

/-- The number of items of an array, whose items follow. -/
def readArrayHeader : Text → Except Fault (Nat × Text)
  | [] => .error .tooFewBytes
  | lead :: t =>
    if 0x90 ≤ lead ∧ lead ≤ 0x9F then .ok (lead.toNat - 0x90, t)
    else if lead = 0xDC then readWord 2 t
    else if lead = 0xDD then readWord 4 t
    else .error (.unexpected .array lead)

/-- A number that must not be negative, in a form that allows it to be. -/
def readNatural (width : Nat) (t : Text) : Except Fault (Nat × Text) := do
  let (i, rest) ← readSignedWord width t
  if i < 0 then .error (.negative i) else .ok (i.toNat, rest)

/-- A whole number that is not negative. -/
def readUnsigned : Text → Except Fault (Nat × Text)
  | [] => .error .tooFewBytes
  | lead :: t =>
    if lead ≤ 0x7F then .ok (lead.toNat, t)
    else if lead = 0xCC then readWord 1 t
    else if lead = 0xCD then readWord 2 t
    else if lead = 0xCE then readWord 4 t
    else if lead = 0xCF then readWord 8 t
    else if lead = 0xD0 then readNatural 1 t
    else if lead = 0xD1 then readNatural 2 t
    else if lead = 0xD2 then readNatural 4 t
    else if lead = 0xD3 then readNatural 8 t
    else if 0xE0 ≤ lead then .error (.negative ((lead.toNat : Int) - 256))
    else .error (.unexpected .uint lead)

/-- A number of one byte, in whatever form. -/
def readUInt8 (t : Text) : Except Fault (UInt8 × Text) := do
  let (n, rest) ← readUnsigned t
  if n < 256 then .ok (UInt8.ofNat n, rest) else .error (.overflow n)

/-- A truth value. -/
def readBoolean : Text → Except Fault (Bool × Text)
  | [] => .error .tooFewBytes
  | lead :: t =>
    if lead = 0xC3 then .ok (true, t)
    else if lead = 0xC2 then .ok (false, t)
    else .error (.unexpected .bool lead)

/-- A floating point number of either precision.  Fewer than nine bytes are too few for
any other item. -/
def readDouble (t : Text) : Except Fault (Binary64 × Text) :=
  match t with
  | [] => .error .tooFewBytes
  | lead :: rest =>
    if lead = 0xCA then do
      let (n, rest) ← readWord 4 rest
      .ok (Binary32.widen ⟨UInt32.ofNat n⟩, rest)
    else if lead = 0xCB then do
      let (n, rest) ← readWord 8 rest
      .ok (⟨UInt64.ofNat n⟩, rest)
    else if rest.length < 8 then .error .tooFewBytes
    else .error (.unexpected .float64 lead)

/-- The length of a string, whose bytes follow. -/
def readStringHeader : Text → Except Fault (Nat × Text)
  | [] => .error .tooFewBytes
  | lead :: t =>
    if 0xA0 ≤ lead ∧ lead ≤ 0xBF then .ok (lead.toNat - 0xA0, t)
    else if lead = 0xD9 then readWord 1 t
    else if lead = 0xDA then readWord 2 t
    else if lead = 0xDB then readWord 4 t
    else .error (.mismatch (Kind.ofLead lead) .str)

/-- A string. -/
def readString (t : Text) : Except Fault (Text × Text) := do
  let (n, rest) ← readStringHeader t
  readBytes n rest

end Argot.MessagePack
