import Argot.Datum.Basic
import Argot.Report
import Argot.Value
import Argot.Number.Format

set_option autoImplicit false

/-!
# Values as plain data

Numbers, truth values, strings, lists and nil have plain counterparts; the other values
become objects with one field that says what they are.  A builtin goes by its name, and
the scope that a closure remembers is left behind.

Only finite numbers can be written.  Reading looks builtins up by name, takes a missing
part of a pair for nil and pays no attention to additional parts.

Normative source: SPEC_FULL §13 (codecs: the shapes of values as JSON).
-/

namespace Argot

/-- Why a value cannot be written as data, or data cannot be read as a value. -/
inductive DatumError where
  /-- a number that is infinite or missing -/
  | notFinite (x : Binary64)
  /-- a type that stands for no value -/
  | undecodable (type : Text)
  /-- an object with no field or with several -/
  | notSingleKey (keys : List Text)
  /-- an object with one field of no known key -/
  | unknownKey (key : Text)
  /-- a name that is not a text -/
  | notText (key type : Text)
  /-- a pair that is not an object -/
  | notPair (first second type : Text)
  /-- a builtin that the scope does not bind -/
  | unknownBuiltin (name : Text)
  deriving DecidableEq, Repr, Inhabited

/-- The error as a host program is told about it. -/
def DatumError.report : DatumError → Report
  | .notFinite x => .diagnosis .value (Text.ofString "cannot encode " ++ x.text)
  | .undecodable type =>
    .diagnosis .type (Text.ofString "cannot decode Go value of type " ++ type)
  | .notSingleKey keys =>
    .diagnosis .type (Text.ofString "expected a single-key object, got keys [" ++
      Text.join Text.space keys ++ Text.ofString "]")
  | .unknownKey key =>
    .diagnosis .type (Text.ofString "unknown object key '" ++ key ++ Text.ofString "'")
  | .notText key type =>
    .diagnosis .type (key ++ Text.ofString " requires a string, got " ++ type)
  | .notPair first second type =>
    .diagnosis .type (Text.ofString "expected an object with " ++ first ++ Text.ofString " and " ++
      second ++ Text.ofString ", got " ++ type)
  | .unknownBuiltin name =>
    .diagnosis .unbound (Text.ofString "builtin " ++ name ++
      Text.ofString " not found in environment")

/-! ## Writing -/

mutual

/-- A value as plain data. -/
def Value.toDatum : Value → Except DatumError Datum
  | .nil => .ok .null
  | .number x => if x.isFinite then .ok (.double x) else .error (.notFinite x)
  | .boolean b => .ok (.bool b)
  | .string s => .ok (.text s)
  | .symbol name => .ok (.object [("sym", .text name)])
  | .quote x => do
    let d ← x.toDatum
    .ok (.object [("quote", d)])
  | .list xs => do
    let ds ← Value.allToDatum xs
    .ok (.array ds)
  | .builtin b => .ok (.object [("builtin", .text b.name)])
  | .closure params body _ => do
    let p ← params.toDatum
    let b ← body.toDatum
    .ok (.object [("closure", .object [("body", b), ("params", p)])])
  | .scopedLet bindings body => do
    let v ← bindings.toDatum
    let b ← body.toDatum
    .ok (.object [("scoped-let", .object [("body", b), ("variables", v)])])

/-- Values as plain data, up to the first that cannot be written. -/
def Value.allToDatum : List Value → Except DatumError (List Datum)
  | [] => .ok []
  | x :: xs => do
    let d ← x.toDatum
    let ds ← Value.allToDatum xs
    .ok (d :: ds)

end

/-! ## Reading -/

/-- The builtin that a look-up finds under a name. -/
def findBuiltin (find : Text → Option Value) (name : Text) : Option Value :=
  match find name with
  | some (.builtin b) => some (.builtin b)
  | _ => none

/-- The objects that stand for values, by the key of their only field. -/
inductive Tag where
  | symbol
  | quote
  | builtin
  | closure
  | scopedLet
  deriving DecidableEq, Repr, Inhabited

/-- What a key says about an object. -/
def Tag.ofKey? (key : Text) : Option Tag :=
  if key = Text.ofString "sym" then some .symbol
  else if key = Text.ofString "quote" then some .quote
  else if key = Text.ofString "builtin" then some .builtin
  else if key = Text.ofString "closure" then some .closure
  else if key = Text.ofString "scoped-let" then some .scopedLet
  else none

mutual

/-- Plain data as a value; `find` says what names mean. -/
def Datum.toValue (find : Text → Option Value) : Datum → Except DatumError Value
  | .null => .ok .nil
  | .double x => .ok (.number x)
  | .single x => .ok (.number x)
  | .integer .int64 i => .ok (.number (Binary64.ofInt i))
  | .integer .int i => .ok (.number (Binary64.ofInt i))
  | .integer .uint64 i => .ok (.number (Binary64.ofInt i))
  | .integer type _ => .error (.undecodable type.name)
  | .bytes s => .error (.undecodable (Datum.bytes s).typeName)
  | .bool b => .ok (.boolean b)
  | .text s => .ok (.string s)
  | .array items => do
    let xs ← Datum.allToValue find items
    .ok (.list xs)
  | .object fields => Datum.objectToValue find fields
termination_by structural d => d

/-- The fields of an object as a value. -/
def Datum.objectToValue (find : Text → Option Value) :
    List (Text × Datum) → Except DatumError Value
  | [(key, d)] =>
    match Tag.ofKey? key with
    | none => .error (.unknownKey key)
    | some .symbol =>
      match d with
      | .text name => .ok (.symbol name)
      | d => .error (.notText key d.typeName)
    | some .quote => do
      let x ← Datum.toValue find d
      .ok (.quote x)
    | some .builtin =>
      match d with
      | .text name =>
        match findBuiltin find name with
        | some x => .ok x
        | none => .error (.unknownBuiltin name)
      | d => .error (.notText key d.typeName)
    | some .closure =>
      match d with
      | .object parts => do
        let params ← Datum.partToValue find "params" parts
        let body ← Datum.partToValue find "body" parts
        .ok (.closure params body none)
      | d => .error (.notPair "params" "body" d.typeName)
    | some .scopedLet =>
      match d with
      | .object parts => do
        let bindings ← Datum.partToValue find "variables" parts
        let body ← Datum.partToValue find "body" parts
        .ok (.scopedLet bindings body)
      | d => .error (.notPair "variables" "body" d.typeName)
  | fields => .error (.notSingleKey (fields.map Prod.fst))
termination_by structural fields => fields

/-- The part of a pair under a key, which is nil when it is missing. -/
def Datum.partToValue (find : Text → Option Value) (key : Text) :
    List (Text × Datum) → Except DatumError Value
  | [] => .ok .nil
  | (k, d) :: rest => if k = key then Datum.toValue find d else Datum.partToValue find key rest
termination_by structural parts => parts

/-- The items of an array as values. -/
def Datum.allToValue (find : Text → Option Value) : List Datum → Except DatumError (List Value)
  | [] => .ok []
  | d :: ds => do
    let x ← Datum.toValue find d
    let xs ← Datum.allToValue find ds
    .ok (x :: xs)
termination_by structural items => items

end

end Argot
