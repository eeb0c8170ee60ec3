import Argot.Text.Basic
import Argot.Number.Shortest

set_option autoImplicit false

/-!
# The text of a number

Digits are laid out positionally or with an exponent, depending on the exponent of the
leading digit.  Where the line is drawn is the layout's decision: `NumberLayout.general`
is the notation of the language, and the data formats have their own.

Normative source: SPEC_FULL §13 (printer: numbers).
-/

namespace Argot

/-- Which exponents of the leading digit are written positionally. -/
structure NumberLayout where
  least : Int
  most : Int
  deriving DecidableEq, Repr

/-- Numbers from a ten-thousandth to below a million are written positionally. -/
def NumberLayout.general : NumberLayout := ⟨-4, 5⟩

/-- Significant digits without trailing zeros, and the exponent of the first one. -/
structure Digits where
  digits : List Char
  exponent : Int
  deriving DecidableEq, Repr

namespace Digits

/-- The digits of a decimal fraction. -/
def ofDecimal (d : Decimal) : Digits :=
  let all := Nat.toDigits 10 d.coefficient
  let significant := (all.reverse.dropWhile (· == '0')).reverse
  ⟨if significant.isEmpty then ['0'] else significant, d.exponent + all.length - 1⟩

/-- An exponent: its sign always, and at least two digits. -/
def exponentText (e : Int) : List Char :=
  let digits := Nat.toDigits 10 e.natAbs
  (if e < 0 then '-' else '+') :: (List.replicate (2 - digits.length) '0' ++ digits)

/-- The first digit, a point, the others, and the exponent. -/
def scientific (ds : Digits) : List Char :=
  let mantissa :=
    match ds.digits with
    | [] => []
    | [d] => [d]
    | d :: rest => d :: '.' :: rest
  mantissa ++ 'e' :: exponentText ds.exponent

/-- The digits around a point, filled up with zeros on either side. -/
def positional (ds : Digits) : List Char :=
  match ds.exponent with
  | .negSucc n => '0' :: '.' :: (List.replicate n '0' ++ ds.digits)
  | .ofNat n =>
    let whole := ds.digits.take (n + 1)
    let padded := whole ++ List.replicate (n + 1 - whole.length) '0'
    let fraction := ds.digits.drop (n + 1)
    if fraction.isEmpty then padded else padded ++ '.' :: fraction

/-- The digits in the notation that the layout asks for. -/
def render (layout : NumberLayout) (ds : Digits) : List Char :=
  if layout.least ≤ ds.exponent ∧ ds.exponent ≤ layout.most then ds.positional else ds.scientific

end Digits

namespace Binary64

/-- The digits of a finite magnitude. -/
def digits (m : Nat) : Digits := if m = 0 then ⟨['0'], 0⟩ else Digits.ofDecimal (shortest m)

/-- The text of a number in a layout. -/
def format (layout : NumberLayout) (x : Binary64) : Text :=
  if x.isNaN then Text.ofString "NaN"
  else if x.isInfinite then Text.ofString (if x.isNegative then "-Inf" else "+Inf")
  else
    let digits := Text.ofAscii ((digits x.magnitude).render layout)
    if x.isNegative then Text.byte '-' :: digits else digits

/-- The text of a number in the notation of the language. -/
def text (x : Binary64) : Text := x.format .general

end Binary64
end Argot
