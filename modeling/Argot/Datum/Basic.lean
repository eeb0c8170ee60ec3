import Argot.NameMap
import Argot.Number.Binary64

set_option autoImplicit false

/-!
# Plain data

Data as a host program holds it and data formats carry it: truth values, numbers of
several types, texts, arrays and objects.  An object lists its fields in increasing order
of their keys, each key once.

Normative source: SPEC_FULL §13 (codecs).
-/

namespace Argot

/-- The types of whole numbers. -/
inductive IntegerType where
  | int64
  | int
  | uint64
  | int32
  | uint8
  deriving DecidableEq, Repr, Inhabited

/-- Plain data.  A `single` is a number of single precision, held in double precision. -/
inductive Datum where
  | null
  | bool (b : Bool)
  | double (x : Binary64)
  | single (x : Binary64)
  | integer (type : IntegerType) (i : Int)
  | text (s : Text)
  | bytes (s : Text)
  | array (items : List Datum)
  | object (fields : List (Text × Datum))
  deriving Repr, Inhabited

/-- The name of an integer type. -/
def IntegerType.name : IntegerType → Text
  | .int64 => "int64"
  | .int => "int"
  | .uint64 => "uint64"
  | .int32 => "int32"
  | .uint8 => "uint8"

namespace Datum

/-- The name of a datum's type, as messages have it. -/
def typeName : Datum → Text
  | .null => "<nil>"
  | .bool _ => "bool"
  | .double _ => "float64"
  | .single _ => "float32"
  | .integer type _ => type.name
  | .text _ => "string"
  | .bytes _ => "[]uint8"
  | .array _ => Text.ofString "[]interface \x7b\x7d"
  | .object _ => Text.ofString "map[string]interface \x7b\x7d"

/-- The object of a list of fields; of several fields with one key the last one counts. -/
def objectOf (fields : List (Text × Datum)) : Datum := .object (NameMap.ofList fields).entries

/-- The field of a key. -/
def field? (key : Text) (fields : List (Text × Datum)) : Option Datum := NameMap.lookup key fields

end Datum
end Argot
