import Argot.Text.Basic
import Argot.Number.Binary64

set_option autoImplicit false

/-!
# Numerals

How a number is spelled.  A numeral is decimal, with an optional point and an optional
exponent; or hexadecimal, with `0x` in front and a binary exponent that may not be left
out; or one of the words `inf`, `infinity` and `nan` in any case.  All but `nan` take a
sign.  An underscore may stand between two digits, and between `0x` and a digit.

`Numeral.parse?` reads the spelling and `Numeral.value` rounds it to the nearest number,
once.  A numeral beyond the largest number has an infinite value, and `Numeral.overflows`
tells it apart from one that spells an infinity.

Normative source: SPEC_FULL §4.2 (atoms) and §14 (numerals that overflow).
-/

namespace Argot

/-- A decimal fraction: `coefficient * 10 ^ exponent`. -/
structure Decimal where
  coefficient : Nat
  exponent : Int
  deriving DecidableEq, Repr, Inhabited

/-- The magnitude nearest to `coefficient * base ^ exponent`. -/
def scaledMagnitude (base coefficient : Nat) (exponent : Int) : Nat :=
  match exponent with
  | .ofNat e => Binary64.nearest (coefficient * Nat.pow base e * Binary64.unit) 1
  | .negSucc e => Binary64.nearest (coefficient * Binary64.unit) (Nat.pow base (e + 1))

/-- The magnitude nearest to a decimal fraction. -/
def Decimal.magnitude (d : Decimal) : Nat := scaledMagnitude 10 d.coefficient d.exponent

/-- A number as it is spelled. -/
inductive Numeral where
  | infinity (negative : Bool)
  | nan
  | decimal (negative : Bool) (absolute : Decimal)
  | binary (negative : Bool) (coefficient : Nat) (exponent : Int)
  deriving DecidableEq, Repr, Inhabited

namespace Numeral

/-- The number nearest to what the numeral spells. -/
def value : Numeral → Binary64
  | .infinity negative => Binary64.infinity negative
  | .nan => Binary64.nan
  | .decimal negative d => Binary64.ofMagnitude negative d.magnitude
  | .binary negative c e => Binary64.ofMagnitude negative (scaledMagnitude 2 c e)

/-- Whether the numeral spells a finite number too large to be represented. -/
def overflows : Numeral → Bool
  | .infinity _ => false
  | .nan => false
  | .decimal _ d => d.magnitude == Binary64.infinite
  | .binary _ c e => scaledMagnitude 2 c e == Binary64.infinite

/-! ## Reading -/

/-- The value of a decimal digit. -/
def digit? (b : UInt8) : Option Nat :=
  if 0x30 ≤ b ∧ b ≤ 0x39 then some (b.toNat - 0x30) else none

/-- The ASCII letter in lower case; other bytes as they are. -/
def lower (b : UInt8) : UInt8 := if 0x41 ≤ b ∧ b ≤ 0x5A then b + 0x20 else b

/-- The value of a hexadecimal digit. -/
def hexDigit? (b : UInt8) : Option Nat :=
  if 0x61 ≤ lower b ∧ lower b ≤ 0x66 then some ((lower b).toNat - 0x57) else digit? b

/-- The sign in front of a text, if there is one, and the rest. -/
def splitSign : Text → Option Bool × Text
  | [] => (none, [])
  | b :: t =>
    if b = Text.byte '+' then (some false, t)
    else if b = Text.byte '-' then (some true, t)
    else (none, b :: t)

/-- Whether every underscore stands after a digit and before a digit. -/
def underscoresSeparate (isDigit : UInt8 → Bool) : (afterDigit : Bool) → Text → Bool
  | _, [] => true
  | afterDigit, b :: t =>
    if b = Text.byte '_' then
      afterDigit && (t.head?.any isDigit) && underscoresSeparate isDigit false t
    else underscoresSeparate isDigit (isDigit b) t

/-- The text without its underscores. -/
def dropUnderscores (t : Text) : Text := t.filter (· != Text.byte '_')

/-- The number that a sequence of digits spells in a base. -/
def ofDigits (base : Nat) (digits : List Nat) : Nat := digits.foldl (fun n d => n * base + d) 0

/-- The digits at the front of a text, and the rest. -/
def takeDigits (digitValue? : UInt8 → Option Nat) : Text → List Nat × Text
  | [] => ([], [])
  | b :: t =>
    match digitValue? b with
    | some d =>
      let (ds, rest) := takeDigits digitValue? t
      (d :: ds, rest)
    | none => ([], b :: t)

/-- Digits with an optional point among them: all digits, how many of them stand after
the point, and what follows. -/
def takeMantissa (digitValue? : UInt8 → Option Nat) (t : Text) : List Nat × Nat × Text :=
  let (whole, rest) := takeDigits digitValue? t
  match rest with
  | b :: rest' =>
    if b = Text.byte '.' then
      let (fraction, rest'') := takeDigits digitValue? rest'
      (whole ++ fraction, fraction.length, rest'')
    else (whole, 0, rest)
  | [] => (whole, 0, rest)

/-- An exponent stops growing once it has reached ten thousand; no number is that large
or that small. -/
def exponentOfDigits (digits : List Nat) : Nat :=
  digits.foldl (fun e d => if e < 10000 then e * 10 + d else e) 0

/-- An exponent after its mark: an optional sign and at least one digit, to the end. -/
def exponent? (t : Text) : Option Int :=
  let (sign, rest) := splitSign t
  match takeDigits digit? rest with
  | (d :: ds, []) =>
    let e := exponentOfDigits (d :: ds)
    some (if sign = some true then -(e : Int) else e)
  | _ => none

/-- A decimal numeral without its sign. -/
def decimal? (negative : Bool) (t : Text) : Option Numeral :=
  match takeMantissa digit? t with
  | ([], _, _) => none
  | (digits, places, rest) =>
    let coefficient := ofDigits 10 digits
    match rest with
    | [] => some (.decimal negative ⟨coefficient, -(places : Int)⟩)
    | mark :: rest' =>
      if lower mark = Text.byte 'e' then
        (exponent? rest').map fun e => .decimal negative ⟨coefficient, e - places⟩
      else none

/-- A hexadecimal numeral after `0x`. -/
def hexadecimal? (negative : Bool) (t : Text) : Option Numeral :=
  match takeMantissa hexDigit? t with
  | ([], _, _) => none
  | (_, _, []) => none
  | (digits, places, mark :: rest) =>
    if lower mark = Text.byte 'p' then
      (exponent? rest).map fun e => .binary negative (ofDigits 16 digits) (e - 4 * places)
    else none

/-- What follows the mark `0x` of a hexadecimal numeral. -/
def afterHexMark? : Text → Option Text
  | zero :: x :: t => if zero = Text.byte '0' ∧ lower x = Text.byte 'x' then some t else none
  | _ => none

/-- The words for what is not finite. -/
def word? (t : Text) : Option Numeral :=
  let (sign, rest) := splitSign t
  let name := rest.map lower
  if name = Text.ofString "inf" ∨ name = Text.ofString "infinity" then
    some (.infinity (sign = some true))
  else if sign = none ∧ name = Text.ofString "nan" then some .nan
  else none

/-- Reads a whole text as a numeral. -/
def parse? (t : Text) : Option Numeral :=
  match word? t with
  | some n => some n
  | none =>
    let (sign, body) := splitSign t
    let negative := sign = some true
    match afterHexMark? body with
    | some digits =>
      if underscoresSeparate (fun b => (hexDigit? b).isSome) true digits then
        hexadecimal? negative (dropUnderscores digits)
      else none
    | none =>
      if underscoresSeparate (fun b => (digit? b).isSome) false body then
        decimal? negative (dropUnderscores body)
      else none

end Numeral
end Argot
