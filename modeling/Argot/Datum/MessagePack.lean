import Argot.Datum.Basic
import Argot.MessagePack.Basic

set_option autoImplicit false

/-!
# Plain data in MessagePack

Reads any item as plain data, to look at an encoding without knowing what it stands for.
Whole numbers become 64-bit integers, the largest ones with the sign that their bits have
there; floating point numbers become doubles and byte strings become texts.  Extensions
are not read.

The first field of a key settles what the key holds, and later fields of that key are read
over it: a truth value gives way to a truth value or to 0 or 1, an integer to an integer, a
floating point number to any number, a text to a text or an array of bytes.  A map keeps
the fields that the later one lacks, and an array its length.  Only nil gives way to
anything, and anything to nil.

Normative source: SPEC_FULL §12 (binary value encoding).
-/

namespace Argot.MessagePack

/-- How deep arrays and maps may nest in plain data. -/
def maxDatumDepth : Nat := 1023

/-- A 64-bit word as an integer with a sign. -/
def wrapInt64 (i : Int) : Datum := .integer .int64 (Int.bmod i 0x10000000000000000)

/-- What a reader finds, if it finds anything. -/
def found {α : Type} (r : Except Fault (α × Text)) : Option (α × Text) := r.toOption

/-- The length of a byte string, whose bytes follow. -/
def readBinaryHeader (lead : UInt8) (t : Text) : Option (Nat × Text) :=
  if lead = 0xC4 then found (readWord 1 t)
  else if lead = 0xC5 then found (readWord 2 t)
  else if lead = 0xC6 then found (readWord 4 t)
  else none

/-- A string or a byte string. -/
def readText? (t : Text) : Option (Text × Text) :=
  match t with
  | [] => none
  | lead :: rest =>
    match Kind.ofLead lead with
    | .str => found (readString t)
    | .bin => do
      let (n, rest) ← readBinaryHeader lead rest
      found (readBytes n rest)
    | _ => none

/-- A whole number after its lead byte. -/
def readInteger? (lead : UInt8) (t : Text) : Option (Int × Text) :=
  if lead ≤ 0x7F then some (lead.toNat, t)
  else if 0xE0 ≤ lead then some ((lead.toNat : Int) - 256, t)
  else if lead = 0xCC then (found (readWord 1 t)).map fun (n, t) => (n, t)
  else if lead = 0xCD then (found (readWord 2 t)).map fun (n, t) => (n, t)
  else if lead = 0xCE then (found (readWord 4 t)).map fun (n, t) => (n, t)
  else if lead = 0xCF then (found (readWord 8 t)).map fun (n, t) => (n, t)
  else if lead = 0xD0 then found (readSignedWord 1 t)
  else if lead = 0xD1 then found (readSignedWord 2 t)
  else if lead = 0xD2 then found (readSignedWord 4 t)
  else if lead = 0xD3 then found (readSignedWord 8 t)
  else none

/-- The number of fields of a map after its lead byte. -/
def readMapHeader? (lead : UInt8) (t : Text) : Option (Nat × Text) :=
  if lead = 0xDE then found (readWord 2 t)
  else if lead = 0xDF then found (readWord 4 t)
  else some (lead.toNat - 0x80, t)

/-- A byte as a number of its own; nil counts as zero. -/
def readByte? (t : Text) : Option (UInt8 × Text) :=
  match t with
  | [] => none
  | lead :: rest =>
    if lead = 0xC0 then some (0, rest)
    else
      match readInteger? lead rest with
      | some (i, rest) => if 0 ≤ i ∧ i < 256 then some (UInt8.ofNat i.toNat, rest) else none
      | none => none

/-- `count` bytes as numbers one after another. -/
def readByteItems? : (count : Nat) → Text → Option (Text × Text)
  | 0, t => some ([], t)
  | count + 1, t => do
    let (b, t) ← readByte? t
    let (bs, t) ← readByteItems? count t
    some (b :: bs, t)

/-- The key of a field, which may be an array of bytes; nil counts as the empty text. -/
def readKey? (t : Text) : Option (Text × Text) :=
  match t with
  | [] => none
  | lead :: rest =>
    if lead = 0xC0 then some ([], rest)
    else if Kind.ofLead lead = .array then do
      let (count, rest) ← found (readArrayHeader t)
      readByteItems? count rest
    else readText? t

/-- A truth value, or 0 or 1 for one. -/
def truthOfLead? (lead : UInt8) : Option Bool :=
  if lead = 0xC2 ∨ lead = 0 then some false
  else if lead = 0xC3 ∨ lead = 1 then some true
  else none

/-- A number where a floating point number must stand. -/
def readNumber? (t : Text) : Option (Binary64 × Text) :=
  match t with
  | [] => none
  | lead :: rest =>
    match Kind.ofLead lead with
    | .float32 => found (readDouble t)
    | .float64 => found (readDouble t)
    | _ =>
      (readInteger? lead rest).map fun (i, rest) =>
        (Binary64.ofInt (Int.bmod i 0x10000000000000000), rest)

/-- `count` items one after another. -/
def readItems? (read : Datum → Text → Option (Datum × Text)) :
    (count : Nat) → Text → Option (List Datum × Text)
  | 0, t => some ([], t)
  | count + 1, t => do
    let (d, t) ← read .null t
    let (ds, t) ← readItems? read count t
    some (d :: ds, t)

/-- `count` items one after another over earlier ones.  Items that find no place are
passed over. -/
def readItemsOver? (read : Datum → Text → Option (Datum × Text)) :
    (before : List Datum) → (count : Nat) → Text → Option (List Datum × Text)
  | before, 0, t => some (before, t)
  | [], count + 1, t => do
    let (_, t) ← read .null t
    readItemsOver? read [] count t
  | d :: ds, count + 1, t => do
    let (d, t) ← read d t
    let (ds, t) ← readItemsOver? read ds count t
    some (d :: ds, t)

/-- `count` fields one after another on top of those before, the latest one first. -/
def readFields? (read : Datum → Text → Option (Datum × Text)) :
    (count : Nat) → (before : List (Text × Datum)) → Text → Option (List (Text × Datum) × Text)
  | 0, before, t => some (before, t)
  | count + 1, before, t => do
    let (k, t) ← readKey? t
    let (d, t) ← read ((Datum.field? k before).getD .null) t
    readFields? read count ((k, d) :: before) t

/-- A map on top of earlier fields. -/
def readObject? (read : Datum → Text → Option (Datum × Text)) (before : List (Text × Datum))
    (lead : UInt8) (t : Text) : Option (Datum × Text) := do
  let (count, t) ← readMapHeader? lead t
  let (fields, t) ← readFields? read count before t
  some (Datum.objectOf fields.reverse, t)

/-- One item where nothing stood before.  `read` reads what is inside it, unless it is
nested too deep. -/
def readFresh? (read : Option (Datum → Text → Option (Datum × Text))) (lead : UInt8) (t : Text) :
    Option (Datum × Text) :=
  match Kind.ofLead lead with
  | .nil => some (.null, t)
  | .bool => some (.bool (lead = 0xC3), t)
  | .int => (readInteger? lead t).map fun (i, t) => (wrapInt64 i, t)
  | .uint => (readInteger? lead t).map fun (i, t) => (wrapInt64 i, t)
  | .float32 => (found (readDouble (lead :: t))).map fun (x, t) => (.double x, t)
  | .float64 => (found (readDouble (lead :: t))).map fun (x, t) => (.double x, t)
  | .str => (readText? (lead :: t)).map fun (s, t) => (.text s, t)
  | .bin => (readText? (lead :: t)).map fun (s, t) => (.text s, t)
  | .array => do
    let read ← read
    let (count, t) ← found (readArrayHeader (lead :: t))
    let (ds, t) ← readItems? read count t
    some (.array ds, t)
  | .map => do
    let read ← read
    readObject? read [] lead t
  | .ext => none
  | .invalid => none

/-- One item over the value that stood in its place before. -/
def readOver? (read : Option (Datum → Text → Option (Datum × Text))) (before : Datum)
    (lead : UInt8) (t : Text) : Option (Datum × Text) :=
  match before with
  | .bool _ => (truthOfLead? lead).map fun v => (.bool v, t)
  | .integer _ _ => (readInteger? lead t).map fun (i, t) => (wrapInt64 i, t)
  | .double _ => (readNumber? (lead :: t)).map fun (x, t) => (.double x, t)
  | .text _ => (readKey? (lead :: t)).map fun (s, t) => (.text s, t)
  | .array items => do
    let read ← read
    let (count, t) ←
      match Kind.ofLead lead with
      | .array => found (readArrayHeader (lead :: t))
      | .map => (readMapHeader? lead t).map fun (n, t) => (2 * n, t)
      | _ => none
    let (items, t) ← readItemsOver? read items count t
    some (.array items, t)
  | .object fields => do
    let read ← read
    if Kind.ofLead lead = .map then readObject? read fields lead t else none
  | _ => readFresh? read lead t

/-- One item with at most `levels` arrays and maps around each other, over the value that
stood in its place before.  Where nothing stood that is null. -/
def readDatum? : (levels : Nat) → (before : Datum) → Text → Option (Datum × Text)
  | _, _, [] => none
  | levels, before, lead :: t =>
    if lead = 0xC0 then some (.null, t)
    else
      match levels with
      | 0 => readOver? none before lead t
      | levels + 1 => readOver? (some (readDatum? levels)) before lead t

end Argot.MessagePack

namespace Argot.Datum

/-- The item at the front of an encoding. -/
def ofMessagePack? (t : Text) : Option Datum :=
  (MessagePack.readDatum? MessagePack.maxDatumDepth .null t).map Prod.fst

end Argot.Datum
