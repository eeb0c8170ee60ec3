import Argot.Text.Basic
import Argot.Number.Binary64

set_option autoImplicit false

/-!
# Arithmetic

Each operation on finite numbers is the exact operation on their quanta, rounded once.
No operation fails: dividing by zero gives an infinity, and what has no value, such as
the difference of two infinities, is not a number.

Normative source: SPEC_FULL §4.3 (arithmetic builtins).
-/

namespace Argot.Binary64

/-- The number with the opposite sign. -/
def neg (x : Binary64) : Binary64 := ofMagnitude (!x.isNegative) x.magnitude

/-- The absolute value of a finite number in quanta. -/
def size (x : Binary64) : Nat := quantaOf x.magnitude

/-- Sum.  A sum that vanishes is the negative zero only if both operands are negative. -/
def add (x y : Binary64) : Binary64 :=
  if x.isNaN || y.isNaN then nan
  else if x.isInfinite then
    if y.isInfinite && x.isNegative != y.isNegative then nan else x
  else if y.isInfinite then y
  else
    let sum := x.quanta + y.quanta
    if sum = 0 then zero (x.isNegative && y.isNegative)
    else ofMagnitude (sum < 0) (nearest sum.natAbs 1)

/-- Difference. -/
def sub (x y : Binary64) : Binary64 := add x y.neg

/-- Product. -/
def mul (x y : Binary64) : Binary64 :=
  let negative := x.isNegative != y.isNegative
  if x.isNaN || y.isNaN then nan
  else if x.isInfinite then if y.magnitude = 0 then nan else infinity negative
  else if y.isInfinite then if x.magnitude = 0 then nan else infinity negative
  else ofMagnitude negative (nearest (x.size * y.size) unit)

/-- Quotient.  Zero goes into everything infinitely often, except into zero. -/
def div (x y : Binary64) : Binary64 :=
  let negative := x.isNegative != y.isNegative
  if x.isNaN || y.isNaN then nan
  else if x.isInfinite then if y.isInfinite then nan else infinity negative
  else if y.isInfinite then zero negative
  else if y.magnitude = 0 then if x.magnitude = 0 then nan else infinity negative
  else ofMagnitude negative (nearest (x.size * unit) y.size)

/-- Remainder of the division that truncates.  It has the sign of the dividend, and it
is exact. -/
def mod (x y : Binary64) : Binary64 :=
  if x.isNaN || y.isNaN || x.isInfinite || y.magnitude == 0 then nan
  else if y.isInfinite then x
  else ofMagnitude x.isNegative (nearest (x.size % y.size) 1)

end Argot.Binary64

namespace Argot

/-- The arithmetic operations of two operands. -/
inductive NumericOp where
  | add
  | sub
  | mul
  | div
  | mod
  deriving DecidableEq, Repr, Inhabited

/-- What an operation computes. -/
def NumericOp.apply : NumericOp → Binary64 → Binary64 → Binary64
  | .add => Binary64.add
  | .sub => Binary64.sub
  | .mul => Binary64.mul
  | .div => Binary64.div
  | .mod => Binary64.mod

/-- The operation that an arithmetic sign names; every other name means addition. -/
def NumericOp.ofName (name : Text) : NumericOp :=
  if name = Text.ofString "-" then .sub
  else if name = Text.ofString "*" then .mul
  else if name = Text.ofString "/" then .div
  else if name = Text.ofString "%" then .mod
  else .add

/-- Operations by number, in the order sum, difference, product, quotient, remainder.  A
number that stands for none has no value. -/
def NumericOp.applyCode (code : Int) (x y : Binary64) : Binary64 :=
  match code with
  | 0 => x.add y
  | 1 => x.sub y
  | 2 => x.mul y
  | 3 => x.div y
  | 4 => x.mod y
  | _ => Binary64.nan

end Argot
