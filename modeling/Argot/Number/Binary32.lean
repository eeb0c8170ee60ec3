import Argot.Number.Binary64

set_option autoImplicit false

/-!
# Single precision

A number of single precision is a 32-bit word: a sign and a magnitude of 31 bits.  Its
quantum, the smallest positive value, is `2 ^ -149`.  Every such number is also a number
of double precision (`Binary32.widen`), and `Binary32.nearest` is the way back.

Normative source: SPEC_FULL §12 (binary value encoding).
-/

namespace Argot

/-- A floating point number of single precision, given by its 32 bits. -/
structure Binary32 where
  bits : UInt32
  deriving DecidableEq, Repr, Inhabited

namespace Binary32

/-- Whether the sign bit is set. -/
def isNegative (x : Binary32) : Bool := 0x80000000 ≤ x.bits.toNat

/-- The word without its sign bit. -/
def magnitude (x : Binary32) : Nat := x.bits.toNat % 0x80000000

/-- The magnitude of the infinities. -/
def infinite : Nat := 0x7F800000

/-- The number with this sign and magnitude. -/
def ofMagnitude (negative : Bool) (magnitude : Nat) : Binary32 :=
  ⟨UInt32.ofNat ((if negative then 0x80000000 else 0) + magnitude)⟩

/-- The quantum of single precision, counted in those of double precision. -/
def quantum : Nat := Nat.pow 2 925

/-- The whole number of quanta that a finite magnitude stands for. -/
def quantaOf (m : Nat) : Nat :=
  if m < 0x800000 then m else (0x800000 + m % 0x800000) * Nat.pow 2 (m / 0x800000 - 1)

/-- The same number in double precision.  What is not a number keeps the bits that say
why, and is marked quiet. -/
def widen (x : Binary32) : Binary64 :=
  let m := x.magnitude
  if m < infinite then
    Binary64.ofMagnitude x.isNegative (Binary64.nearest (quantaOf m * quantum) 1)
  else if m = infinite then Binary64.infinity x.isNegative
  else
    let payload := (m - infinite) % 0x400000
    Binary64.ofMagnitude x.isNegative (Binary64.infinite + 0x8000000000000 + payload * 0x20000000)

/-- The number of single precision nearest to a number, the even one on a tie. -/
def nearest (x : Binary64) : Binary32 :=
  if x.isNaN then ⟨0x7FC00000⟩
  else if x.isInfinite then ofMagnitude x.isNegative infinite
  else
    let n := Binary64.quantaOf x.magnitude
    let shift := (n / quantum).log2 - 23
    ofMagnitude x.isNegative
      (min infinite (shift * 0x800000 + Binary64.roundDiv n (quantum * Nat.pow 2 shift)))

end Binary32
end Argot
