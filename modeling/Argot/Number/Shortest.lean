import Argot.Number.Numeral

set_option autoImplicit false

/-!
# Shortest decimals

`shortest m` is the decimal with the fewest digits that rounds back to the finite
magnitude `m`; among those with equally many digits it is the one nearest to `m`.  For
each number of digits only two decimals need to be tried, the neighbours of `m` on the
grid of decimals with so many digits.

Normative source: SPEC_FULL §13 (printer: numbers in shortest form).
-/

namespace Argot.Shortest

/-- How many digits the decimal notation of `n` has. -/
def digitCount (n : Nat) : Nat := (Nat.toDigits 10 n).length

/-- A power of ten large enough to make a whole number of any positive number. -/
def lift : Nat := Nat.pow 10 400

/-- The exponent of the leading decimal digit of a positive number of quanta. -/
def leadingExponent (quanta : Nat) : Int :=
  (digitCount (quanta * lift / Binary64.unit) : Int) - 1 - 400

/-- A number of quanta, measured in steps of `10 ^ exponent`, as a fraction. -/
def inSteps (quanta : Nat) (exponent : Int) : Nat × Nat :=
  match exponent with
  | .ofNat e => (quanta, Binary64.unit * Nat.pow 10 e)
  | .negSucc e => (quanta * Nat.pow 10 (e + 1), Binary64.unit)

/-- The decimal with this exponent that stands for `m`, if there is one, given `m` as the
fraction `n / d` in steps of the exponent: the neighbour of `m` below or the one above, and
the nearer of the two if both do.  On a tie it is the even one. -/
def neighbour? (m : Nat) (exponent : Int) : Nat × Nat → Option Decimal
  | (n, d) =>
    let low : Decimal := ⟨n / d, exponent⟩
    let high : Decimal := ⟨n / d + 1, exponent⟩
    match low.magnitude == m, high.magnitude == m with
    | false, false => none
    | true, false => some low
    | false, true => some high
    | true, true =>
      let r := n % d
      if 2 * r < d ∨ (2 * r = d ∧ n / d % 2 = 0) then some low else some high

/-- The decimal with `count` digits that stands for `m`, if there is one. -/
def withDigits? (m count : Nat) : Option Decimal :=
  let quanta := Binary64.quantaOf m
  let exponent := leadingExponent quanta - count + 1
  neighbour? m exponent (inSteps quanta exponent)

/-- All digits of a finite magnitude: every number of quanta is a finite decimal. -/
def exact (m : Nat) : Decimal := ⟨Binary64.quantaOf m * Nat.pow 5 1074, -1074⟩

end Argot.Shortest

namespace Argot

/-- The shortest decimal that rounds to the positive finite magnitude `m`. -/
def shortest (m : Nat) : Decimal :=
  ((List.range' 1 17).findSome? (Shortest.withDigits? m)).getD (Shortest.exact m)

end Argot
