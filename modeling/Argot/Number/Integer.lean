import Argot.Number.Numeral

set_option autoImplicit false

/-!
# Integers as they are spelled

An integer has an optional sign and digits.  The base is ten unless `0x`, `0o` or `0b`
says otherwise; a zero in front of other digits means base eight.  An underscore may
stand between two digits, and between the mark of a base and a digit.

Normative source: SPEC_FULL §11.1 (configuration) and §12 (vocabulary files).
-/

namespace Argot

/-- Why a text is not the spelling of a 64-bit integer. -/
inductive IntegerFault where
  | malformed
  | outOfRange
  deriving DecidableEq, Repr, Inhabited

namespace Integer

/-- The value of a digit or letter as a digit of some base. -/
def digit? (b : UInt8) : Option Nat :=
  if 0x61 ≤ Numeral.lower b ∧ Numeral.lower b ≤ 0x7A then some ((Numeral.lower b).toNat - 0x57)
  else Numeral.digit? b

/-- The base of digits, which is told by what stands in front of them. -/
def splitBase : Text → Nat × Text
  | zero :: mark :: rest =>
    if zero = Text.byte '0' then
      let mark' := Numeral.lower mark
      if rest.isEmpty then (8, mark :: rest)
      else if mark' = Text.byte 'x' then (16, rest)
      else if mark' = Text.byte 'o' then (8, rest)
      else if mark' = Text.byte 'b' then (2, rest)
      else (8, mark :: rest)
    else (10, zero :: mark :: rest)
  | t => (10, t)

/-- Reads digits from left to right, up to the first that is none or that takes the
number beyond 64 bits. -/
def readDigits (base : Nat) : (n : Nat) → Text → Except IntegerFault Nat
  | n, [] => .ok n
  | n, b :: t =>
    match digit? b with
    | none => .error .malformed
    | some d =>
      if base ≤ d then .error .malformed
      else if 0x10000000000000000 ≤ n * base + d then .error .outOfRange
      else readDigits base (n * base + d) t

/-- Whether the underscores stand where they may.  The mark of a base counts as a digit. -/
def underscoresFit (t : Text) : Bool :=
  match t with
  | zero :: mark :: rest =>
    let mark' := Numeral.lower mark
    if zero = Text.byte '0' ∧ mark' = Text.byte 'x' then
      Numeral.underscoresSeparate (fun b => (Numeral.hexDigit? b).isSome) true rest
    else if zero = Text.byte '0' ∧ (mark' = Text.byte 'o' ∨ mark' = Text.byte 'b') then
      Numeral.underscoresSeparate (fun b => (Numeral.digit? b).isSome) true rest
    else Numeral.underscoresSeparate (fun b => (Numeral.digit? b).isSome) false t
  | _ => Numeral.underscoresSeparate (fun b => (Numeral.digit? b).isSome) false t

/-- The number that digits spell, without a sign. -/
def readMagnitude (t : Text) : Except IntegerFault Nat :=
  if t.isEmpty then .error .malformed
  else
    let (base, digits) := splitBase t
    match readDigits base 0 (Numeral.dropUnderscores digits) with
    | .error e => .error e
    | .ok n => if underscoresFit t then .ok n else .error .malformed

/-- The 64-bit integer that a text spells. -/
def parse (t : Text) : Except IntegerFault Int :=
  let (sign, digits) := Numeral.splitSign t
  match readMagnitude digits with
  | .error e => .error e
  | .ok n =>
    if sign = some true then
      if n ≤ 0x8000000000000000 then .ok (-(n : Int)) else .error .outOfRange
    else if n < 0x8000000000000000 then .ok n
    else .error .outOfRange

end Integer
end Argot
