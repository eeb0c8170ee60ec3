import Argot.Datum.Codec
import Argot.MessagePack.Basic

set_option autoImplicit false

/-!
# Values in MessagePack

A value is an array: a number that says of which variant it is, and its parts.  A builtin
goes by its name, and the scope that a closure remembers is left behind.

Values nested more than `maxDepth` deep are not read, which is also what the reader
recurses on.  A list announces how many items it has; since no value takes fewer than two
bytes, a list that announces more items than can follow is refused at once.

Normative source: SPEC_FULL §13 (codecs: the binary encoding of every variant).
-/

namespace Argot

namespace MessagePack

/-! ## Variants -/

/-- The variants of values. -/
inductive Variant where
  | nil
  | number
  | boolean
  | string
  | symbol
  | quote
  | list
  | builtin
  | closure
  | scopedLet
  deriving DecidableEq, Repr, Inhabited

/-- The number of a variant. -/
def Variant.code : Variant → UInt8
  | .nil => 0
  | .number => 1
  | .boolean => 2
  | .string => 3
  | .symbol => 4
  | .quote => 5
  | .list => 6
  | .builtin => 7
  | .closure => 8
  | .scopedLet => 9

/-- The variant of a number. -/
def Variant.ofCode? (code : UInt8) : Option Variant :=
  if code = 0 then some .nil
  else if code = 1 then some .number
  else if code = 2 then some .boolean
  else if code = 3 then some .string
  else if code = 4 then some .symbol
  else if code = 5 then some .quote
  else if code = 6 then some .list
  else if code = 7 then some .builtin
  else if code = 8 then some .closure
  else if code = 9 then some .scopedLet
  else none

@[simp] theorem Variant.ofCode?_code (k : Variant) : Variant.ofCode? k.code = some k := by
  cases k <;> decide

/-- How many fields the array of a variant has, the number of the variant among them. -/
def Variant.size : Variant → Nat
  | .nil => 1
  | .closure => 3
  | .scopedLet => 3
  | _ => 2

/-- The head of a value: the array and the number of its variant. -/
def header (k : Variant) : Text := arrayHeader k.size ++ unsigned k.code

end MessagePack

/-! ## Writing -/

mutual

/-- The encoding of a value. -/
def Value.toMessagePack : Value → Text
  | .nil => MessagePack.header .nil
  | .number x => MessagePack.header .number ++ MessagePack.double x
  | .boolean b => MessagePack.header .boolean ++ MessagePack.boolean b
  | .string s => MessagePack.header .string ++ MessagePack.string s
  | .symbol name => MessagePack.header .symbol ++ MessagePack.string name
  | .builtin b => MessagePack.header .builtin ++ MessagePack.string b.name
  | .quote x => MessagePack.header .quote ++ x.toMessagePack
  | .list xs =>
    MessagePack.header .list ++ (MessagePack.arrayHeader xs.length ++ Value.allToMessagePack xs)
  | .closure params body _ =>
    MessagePack.header .closure ++ (params.toMessagePack ++ body.toMessagePack)
  | .scopedLet bindings body =>
    MessagePack.header .scopedLet ++ (bindings.toMessagePack ++ body.toMessagePack)

/-- The encodings of values one after another. -/
def Value.allToMessagePack : List Value → Text
  | [] => []
  | x :: xs => x.toMessagePack ++ Value.allToMessagePack xs

end

mutual

/-- Writes a value behind what is in a buffer. -/
def Value.appendMessagePack (buffer : Text) : Value → Text
  | .nil => buffer ++ MessagePack.header .nil
  | .number x => buffer ++ MessagePack.header .number ++ MessagePack.double x
  | .boolean b => buffer ++ MessagePack.header .boolean ++ MessagePack.boolean b
  | .string s => buffer ++ MessagePack.header .string ++ MessagePack.string s
  | .symbol name => buffer ++ MessagePack.header .symbol ++ MessagePack.string name
  | .builtin b => buffer ++ MessagePack.header .builtin ++ MessagePack.string b.name
  | .quote x => x.appendMessagePack (buffer ++ MessagePack.header .quote)
  | .list xs =>
    Value.appendAllMessagePack
      (buffer ++ MessagePack.header .list ++ MessagePack.arrayHeader xs.length) xs
  | .closure params body _ =>
    body.appendMessagePack (params.appendMessagePack (buffer ++ MessagePack.header .closure))
  | .scopedLet bindings body =>
    body.appendMessagePack (bindings.appendMessagePack (buffer ++ MessagePack.header .scopedLet))

/-- Writes values one after another behind what is in a buffer. -/
def Value.appendAllMessagePack (buffer : Text) : List Value → Text
  | [] => buffer
  | x :: xs => Value.appendAllMessagePack (x.appendMessagePack buffer) xs

end

namespace MessagePack

/-! ## Reading -/

/-- How deep values may nest in an encoding. -/
def maxDepth : Nat := 10000

/-- Why an encoding is not that of a value. -/
inductive ValueError where
  /-- an item that cannot be read -/
  | item (fault : Fault)
  /-- values nested too deep -/
  | tooDeep
  /-- an array with nothing in it -/
  | emptyArray
  /-- a number that no variant has -/
  | unknownVariant (code : UInt8)
  /-- the wrong number of fields -/
  | wrongSize (k : Variant) (size : Nat)
  /-- a list with more items than can follow -/
  | listTooLong (count left : Nat)
  /-- a builtin that the scope does not bind -/
  | unknownBuiltin (name : Text)
  /-- bytes after the only value -/
  | trailing (count : Nat)
  deriving DecidableEq, Repr, Inhabited

/-- The error as a host program is told about it. -/
def ValueError.report : ValueError → Report
  | .item fault => .plain fault.message
  | .tooDeep =>
    .plain (Text.ofString "ReadSexpBytes: nesting deeper than " ++ Text.ofNat maxDepth)
  | .emptyArray => .plain "ReadSexpBytes: empty value array"
  | .unknownVariant code =>
    .plain (Text.ofString "ReadSexpBytes: unknown tag " ++ Text.ofNat code.toNat)
  | .wrongSize k size =>
    .plain (Text.ofString "ReadSexpBytes: tag " ++ Text.ofNat k.code.toNat ++
      Text.ofString " wants " ++ Text.ofNat k.size ++ Text.ofString " fields, got " ++
      Text.ofNat size)
  | .listTooLong count left =>
    .plain (Text.ofString "ReadSexpBytes: list of " ++ Text.ofNat count ++
      Text.ofString " elements but only " ++ Text.ofNat left ++ Text.ofString " bytes left")
  | .unknownBuiltin name => (DatumError.unknownBuiltin name).report
  | .trailing count =>
    .plain (Text.ofString "MsgpackToSexp: " ++ Text.ofNat count ++ Text.ofString " trailing bytes")

/-- Reading one item of a value. -/
def ofItem {α : Type} (r : Except Fault α) : Except ValueError α := r.mapError .item

/-- The head of a value. -/
def readHeader (t : Text) : Except ValueError (Variant × Text) := do
  let (size, t) ← ofItem (readArrayHeader t)
  if size = 0 then .error .emptyArray
  else
    let (code, t) ← ofItem (readUInt8 t)
    match Variant.ofCode? code with
    | none => .error (.unknownVariant code)
    | some k => if size = k.size then .ok (k, t) else .error (.wrongSize k size)

/-- `count` values one after another. -/
def readMany (read : Text → Except ValueError (Value × Text)) :
    (count : Nat) → Text → Except ValueError (List Value × Text)
  | 0, t => .ok ([], t)
  | count + 1, t => do
    let (x, t) ← read t
    let (xs, t) ← readMany read count t
    .ok (x :: xs, t)

/-- A value nested fewer than `levels` deep; `find` says what names mean. -/
def readNested (find : Text → Option Value) :
    (levels : Nat) → Text → Except ValueError (Value × Text)
  | 0, _ => .error .tooDeep
  | levels + 1, t => do
    let (k, t) ← readHeader t
    match k with
    | .nil => .ok (.nil, t)
    | .number =>
      let (x, t) ← ofItem (readDouble t)
      .ok (.number x, t)
    | .boolean =>
      let (b, t) ← ofItem (readBoolean t)
      .ok (.boolean b, t)
    | .string =>
      let (s, t) ← ofItem (readString t)
      .ok (.string s, t)
    | .symbol =>
      let (name, t) ← ofItem (readString t)
      .ok (.symbol name, t)
    | .builtin =>
      let (name, t) ← ofItem (readString t)
      match findBuiltin find name with
      | some x => .ok (x, t)
      | none => .error (.unknownBuiltin name)
    | .quote =>
      let (x, t) ← readNested find levels t
      .ok (.quote x, t)
    | .list =>
      let (count, t) ← ofItem (readArrayHeader t)
      if t.length < 2 * count then .error (.listTooLong count t.length)
      else
        let (xs, t) ← readMany (readNested find levels) count t
        .ok (.list xs, t)
    | .closure =>
      let (params, t) ← readNested find levels t
      let (body, t) ← readNested find levels t
      .ok (.closure params body none, t)
    | .scopedLet =>
      let (bindings, t) ← readNested find levels t
      let (body, t) ← readNested find levels t
      .ok (.scopedLet bindings body, t)

/-- The value at the front of a text, and what follows it. -/
def readValue (find : Text → Option Value) (t : Text) : Except ValueError (Value × Text) :=
  readNested find (maxDepth + 1) t

/-- What reading one value off the front of a text comes to, and the bytes that are left.
Where no value can be read, these are all the bytes that there were. -/
def takeValue (find : Text → Option Value) (t : Text) : Except ValueError Value × Text :=
  match readValue find t with
  | .error e => (.error e, t)
  | .ok (x, rest) => (.ok x, rest)

/-- What a scan of a text yields: values with the number of bytes left after each, and
the error that ends it, if there is one, with the number of bytes left before it. -/
def scan (find : Text → Option Value) : (fuel : Nat) → Text → List (Except ValueError Value × Nat)
  | 0, _ => []
  | fuel + 1, t =>
    if t.isEmpty then []
    else
      match takeValue find t with
      | (.error e, left) => [(.error e, left.length)]
      | (.ok x, rest) => (.ok x, rest.length) :: scan find fuel rest

/-- All values of a text, until there are no bytes left or one cannot be read. -/
def readAllValues (find : Text → Option Value) (t : Text) : List (Except ValueError Value × Nat) :=
  scan find t.length t

end MessagePack

/-- The value of an encoding that holds exactly one. -/
def Value.ofMessagePack (find : Text → Option Value) (t : Text) :
    Except MessagePack.ValueError Value := do
  let (x, rest) ← MessagePack.readValue find t
  if rest.isEmpty then .ok x else .error (.trailing rest.length)

end Argot
