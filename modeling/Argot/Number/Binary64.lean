set_option autoImplicit false

/-!
# Binary floating point

A number is a 64-bit word: a sign and a *magnitude*, the lower 63 bits.  Magnitudes
below `infinite` are finite, `infinite` itself is the infinity, and those above it are
not numbers.

A finite magnitude is a whole number of *quanta*, the smallest positive value
`2 ^ -1074`, so that exact arithmetic on finite numbers is arithmetic on integers
(`Binary64.quanta`).  Rounding goes back: `nearest n d` is the magnitude closest to the
rational `n / d` counted in quanta, the even one on a tie.

The order of numbers is the order of their signed magnitudes, which makes the two zeros
equal; what is not a number is comparable to nothing.

Normative source: SPEC_FULL §3 (numbers).
-/

namespace Argot

/-- A floating point number, given by its 64 bits. -/
structure Binary64 where
  bits : UInt64
  deriving DecidableEq, Repr, Inhabited

namespace Binary64

/-! ## The word -/

/-- The number with this sign and magnitude. -/
def ofMagnitude (negative : Bool) (magnitude : Nat) : Binary64 :=
  ⟨UInt64.ofNat ((if negative then 0x8000000000000000 else 0) + magnitude)⟩

/-- Whether the sign bit is set. -/
def isNegative (x : Binary64) : Bool := 0x8000000000000000 ≤ x.bits.toNat

/-- The word without its sign bit. -/
def magnitude (x : Binary64) : Nat := x.bits.toNat % 0x8000000000000000

/-- The magnitude of the infinities: an exponent of ones over an empty fraction. -/
def infinite : Nat := 0x7FF0000000000000

/-- Whether the word is not a number. -/
def isNaN (x : Binary64) : Bool := infinite < x.magnitude

/-- Whether the number is one of the two infinities. -/
def isInfinite (x : Binary64) : Bool := x.magnitude == infinite

/-- Whether the number is neither infinite nor missing. -/
def isFinite (x : Binary64) : Bool := x.magnitude < infinite

/-- The infinity of the given sign. -/
def infinity (negative : Bool) : Binary64 := ofMagnitude negative infinite

/-- The word that stands for the absence of a number. -/
def nan : Binary64 := ⟨0x7FF8000000000001⟩

/-- The zero of the given sign. -/
def zero (negative : Bool) : Binary64 := ofMagnitude negative 0

theorem ofMagnitude_toNat (negative : Bool) {m : Nat} (h : m < 0x8000000000000000) :
    (ofMagnitude negative m).bits.toNat = (if negative then 0x8000000000000000 else 0) + m := by
  cases negative <;> simp [ofMagnitude] <;> omega

@[simp] theorem magnitude_ofMagnitude (negative : Bool) {m : Nat} (h : m < 0x8000000000000000) :
    (ofMagnitude negative m).magnitude = m := by
  rw [magnitude, ofMagnitude_toNat negative h]
  cases negative <;> simp <;> omega

@[simp] theorem isNegative_ofMagnitude (negative : Bool) {m : Nat} (h : m < 0x8000000000000000) :
    (ofMagnitude negative m).isNegative = negative := by
  rw [isNegative, ofMagnitude_toNat negative h]
  cases negative with
  | false => simp; omega
  | true => simp

/-- A number is its sign and its magnitude. -/
theorem ofMagnitude_isNegative_magnitude (x : Binary64) :
    ofMagnitude x.isNegative x.magnitude = x := by
  have bound : x.bits.toNat < 0x10000000000000000 := x.bits.toNat_lt
  have size : x.magnitude < 0x8000000000000000 := Nat.mod_lt _ (by decide)
  have word := ofMagnitude_toNat x.isNegative size
  have same : (ofMagnitude x.isNegative x.magnitude).bits = x.bits := by
    apply UInt64.toNat_inj.1
    rw [word, magnitude, isNegative]
    by_cases sign : 0x8000000000000000 ≤ x.bits.toNat
    · rw [decide_eq_true sign, if_pos rfl]
      omega
    · rw [decide_eq_false sign, if_neg Bool.false_ne_true]
      omega
  cases x
  simpa [ofMagnitude] using same

/-! ## Order -/

/-- The signed magnitude, which orders the numbers. -/
def key (x : Binary64) : Int := if x.isNegative then -(x.magnitude : Int) else x.magnitude

/-- Numerical equality: the zeros are equal, and what is not a number equals nothing. -/
def equals (x y : Binary64) : Bool := !x.isNaN && !y.isNaN && x.key == y.key

/-- Numerical order; what is not a number is neither below nor above anything. -/
def less (x y : Binary64) : Bool := !x.isNaN && !y.isNaN && decide (x.key < y.key)

theorem equals_comm (x y : Binary64) : x.equals y = y.equals x := by
  simp only [equals, Bool.and_comm (!x.isNaN), Bool.beq_comm (a := x.key)]

theorem equals_trans {x y z : Binary64} (hxy : x.equals y = true) (hyz : y.equals z = true) :
    x.equals z = true := by
  simp only [equals, Bool.and_eq_true, beq_iff_eq] at *
  exact ⟨⟨hxy.1.1, hyz.1.2⟩, hxy.2.trans hyz.2⟩

theorem equals_self (x : Binary64) : x.equals x = !x.isNaN := by simp [equals]

theorem less_trans {x y z : Binary64} (hxy : x.less y = true) (hyz : y.less z = true) :
    x.less z = true := by
  simp only [less, Bool.and_eq_true, decide_eq_true_eq] at *
  exact ⟨⟨hxy.1.1, hyz.1.2⟩, Int.lt_trans hxy.2 hyz.2⟩

/-! ## Quanta and rounding -/

/-- The whole number of quanta that a finite magnitude stands for. -/
def quantaOf (m : Nat) : Nat :=
  if m < 0x10000000000000 then m
  else (0x10000000000000 + m % 0x10000000000000) * Nat.pow 2 (m / 0x10000000000000 - 1)

/-- The value of a finite number in quanta. -/
def quanta (x : Binary64) : Int :=
  if x.isNegative then -(quantaOf x.magnitude : Int) else quantaOf x.magnitude

/-- The quanta of the number one. -/
def unit : Nat := Nat.pow 2 1074

/-- The quotient rounded to the nearest integer, to the even one on a tie. -/
def roundDiv (n d : Nat) : Nat :=
  let q := n / d
  let r := n % d
  if 2 * r < d then q else if d < 2 * r then q + 1 else q + q % 2

/-- The magnitude nearest to `n / d` quanta, the even one on a tie.  From half a step
above the largest finite number on, it is the infinite one. -/
def nearest (n d : Nat) : Nat :=
  let shift := (n / d).log2 - 52
  min infinite (shift * 0x10000000000000 + roundDiv n (d * Nat.pow 2 shift))

theorem nearest_le_infinite (n d : Nat) : nearest n d ≤ infinite := Nat.min_le_left _ _

/-- The number nearest to `± n / d`. -/
def ofRatio (negative : Bool) (n d : Nat) : Binary64 :=
  ofMagnitude negative (nearest (n * unit) d)

/-- The number nearest to an integer. -/
def ofInt (i : Int) : Binary64 := ofRatio (i < 0) i.natAbs 1

/-- The number nearest to a natural number. -/
def ofNat (n : Nat) : Binary64 := ofRatio false n 1

/-- The integer part of the absolute value of a finite number. -/
def truncate (x : Binary64) : Nat := quantaOf x.magnitude / unit

end Binary64
end Argot
