import Argot.Number.Format
import Argot.Number.Numeral
import Argot.Text.Rune

set_option autoImplicit false

/-!
# Scalars of documents

A plain scalar may spell a null, a truth value or a number; everything else is text.  A
number counts by its value, so it is spelled anew where a text is wanted: `0x10` is `16`
and `1.50` is `1.5`.

Normative source: SPEC_FULL §12 (vocabulary files).
-/

namespace Argot.Document

/-- The bytes of some characters. -/
def encode (cs : List Char) : Text := cs.flatMap String.utf8EncodeChar

/-- The characters of a text.  A byte that starts none reads as the replacement
character. -/
def characters (t : Text) : List Char :=
  t.runes.map fun
    | .char c => c
    | .stray _ => '�'

/-- What a scalar means. -/
inductive Scalar where
  | null
  | truth (b : Bool)
  /-- a number, in the spelling of its value -/
  | number (t : Text)
  | text (t : Text)
  deriving DecidableEq, Repr, Inhabited

namespace Scalar

/-- A scalar as text; a null has none. -/
def text? : Scalar → Option Text
  | .null => none
  | .truth b => some (if b then "true" else "false")
  | .number t => some t
  | .text t => some t

/-! ## Plain scalars -/

/-- The number that digits spell in a base, if it fits 64 bits. -/
def unsigned? (base : Nat) (t : Text) : Option Nat :=
  match Numeral.takeDigits Numeral.hexDigit? t with
  | ([], _) => none
  | (ds, []) =>
    let n := Numeral.ofDigits base ds
    if ds.all (· < base) ∧ n < 0x10000000000000000 then some n else none
  | _ => none

/-- The base of an integer and its digits. -/
def splitBase (t : Text) : Nat × Text :=
  match Text.after? "0x" t, Text.after? "0o" t, Text.after? "0b" t with
  | some rest, _, _ => (16, rest)
  | _, some rest, _ => (8, rest)
  | _, _, some rest => (2, rest)
  | _, _, _ => if 1 < t.length ∧ t.head? = some (Text.byte '0') then (8, t) else (10, t)

/-- The value of a numeral, spelled anew.  A numeral with a point is a floating point
number, one without is an integer of 64 bits; underscores do not matter. -/
def numberText? (t : Text) : Option Text :=
  let negative := t.head? = some (Text.byte '-')
  let unplussed := (Text.after? "+" t).getD t
  let body := Numeral.dropUnderscores ((Text.after? "-" unplussed).getD unplussed)
  let points := t.count (Text.byte '.')
  if t.head? = some (Text.byte '_') ∨ 1 < points then none
  else if points = 1 then
    match Numeral.decimal? negative body with
    | some n => if n.overflows then none else some n.value.text
    | none => none
  else
    let (base, digits) := splitBase body
    match unsigned? base digits with
    | none => none
    | some n =>
      if negative then if n ≤ 0x8000000000000000 then some (Text.ofInt (-(n : Int))) else none
      else some (Text.ofNat n)

/-- One of several spellings. -/
def isWord (words : List String) (t : Text) : Bool := (words.map Text.ofString).contains t

/-- What a plain scalar means. -/
def ofPlain (t : Text) : Scalar :=
  if isWord ["null", "Null", "NULL", "~"] t then .null
  else if isWord ["true", "True", "TRUE"] t then .truth true
  else if isWord ["false", "False", "FALSE"] t then .truth false
  else if isWord [".inf", ".Inf", ".INF"] t then .number "+Inf"
  else if isWord ["-.inf", "-.Inf", "-.INF"] t then .number "-Inf"
  else if isWord [".nan", ".NaN", ".NAN"] t then .number "NaN"
  else
    match numberText? t with
    | some n => .number n
    | none => .text t

end Scalar
end Argot.Document
