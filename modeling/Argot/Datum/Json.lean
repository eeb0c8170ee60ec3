import Argot.Datum.Basic
import Argot.Number.Format
import Argot.Number.Numeral
import Argot.Text.Rune

set_option autoImplicit false

/-!
# JSON

Data is written without spaces.  Reading takes one value from the front of a text and
pays no attention to what follows.  It is lenient in a few places: every byte up to the
space counts as whitespace, a number may start with a point and may lack digits around its
point or in its exponent, and the key of a field may be a bare word or number.  Whole
numbers are read as 64-bit integers if they fit, and as floating point numbers if they need
more than 64 bits.

The first field of a key settles what the key holds, and later fields of that key are read
over it.  A truth value or number gives way only to its own kind, which may stand between
quotes for a number, and a text to any text, word or number.  An object keeps the fields
that the later one lacks.  An array keeps its length: new items take the place of the first
ones, and those that find no place are passed over.  Only null gives way to anything, and
anything to null.

Normative source: SPEC_FULL §12 (JSON rendering of values).
-/

namespace Argot.Json

/-! ## Writing -/

/-- From a millionth to below `10 ^ 21`, numbers are written positionally. -/
def layout : NumberLayout := ⟨-6, 20⟩

/-- Whether a finite number is whole and smaller than `2 ^ 52`, which has a place after
the point even so. -/
def keepsPlace (x : Binary64) : Bool :=
  let quanta := Binary64.quantaOf x.magnitude
  quanta % Binary64.unit == 0 && decide (quanta < 0x10000000000000 * Binary64.unit)

/-- A finite number. -/
def number (x : Binary64) : Text :=
  if keepsPlace x then x.format layout ++ Text.ofString ".0" else x.format layout

/-- One rune of a string. -/
def escape : Rune → Text
  | .stray _ => Text.ofString "\\uFFFD"
  | .char c =>
    match c.toNat with
    | 0x22 => Text.ofString "\\\""
    | 0x5C => Text.ofString "\\\\"
    | 0x08 => Text.ofString "\\b"
    | 0x0C => Text.ofString "\\f"
    | 0x0A => Text.ofString "\\n"
    | 0x0D => Text.ofString "\\r"
    | 0x09 => Text.ofString "\\t"
    | n =>
      if n < 0x20 ∨ n = 0x3C ∨ n = 0x3E ∨ n = 0x26 ∨ n = 0x2028 ∨ n = 0x2029 then
        Text.ofString "\\u" ++ Text.ofHex 4 n
      else (Rune.char c).encode

/-- A string between quotes. -/
def string (s : Text) : Text := Text.byte '"' :: (s.runes.flatMap escape ++ [Text.byte '"'])

mutual

/-- Data followed by `tail`. -/
def write : Datum → (tail : Text) → Text
  | .null, tail => Text.ofString "null" ++ tail
  | .bool b, tail => Text.ofString (if b then "true" else "false") ++ tail
  | .double x, tail => number x ++ tail
  | .single x, tail => number x ++ tail
  | .integer _ i, tail => Text.ofInt i ++ tail
  | .text s, tail => string s ++ tail
  | .bytes s, tail => string s ++ tail
  | .array items, tail => Text.byte '[' :: writeItems items (Text.byte ']' :: tail)
  | .object fields, tail => 0x7B :: writeFields fields (0x7D :: tail)

/-- Items with commas between them, followed by `tail`. -/
def writeItems : List Datum → (tail : Text) → Text
  | [], tail => tail
  | [d], tail => write d tail
  | d :: e :: rest, tail => write d (Text.byte ',' :: writeItems (e :: rest) tail)

/-- Fields with commas between them, followed by `tail`. -/
def writeFields : List (Text × Datum) → (tail : Text) → Text
  | [], tail => tail
  | [(k, d)], tail => string k ++ Text.byte ':' :: write d tail
  | (k, d) :: e :: rest, tail =>
    string k ++ Text.byte ':' :: write d (Text.byte ',' :: writeFields (e :: rest) tail)

end

/-! ## Reading numbers -/

/-- The bytes that numbers are made of. -/
def isNumberByte (b : UInt8) : Bool :=
  (Numeral.digit? b).isSome || b == Text.byte '+' || b == Text.byte '-' || b == Text.byte '.' ||
    b == Text.byte 'e' || b == Text.byte 'E'

/-- An exponent: an optional sign and digits, which may be missing, and how many digits
there are. -/
def exponent? (t : Text) : Option (Int × Nat) :=
  let (sign, rest) := Numeral.splitSign t
  match Numeral.takeDigits Numeral.digit? rest with
  | (digits, []) =>
    let e := Numeral.exponentOfDigits digits
    some (if sign = some true then -(e : Int) else e, digits.length)
  | _ => none

/-- Whether a decimal fraction is a short one: its digits fit 52 bits, and its places a
power of ten that is exact. -/
def isShort (coefficient places : Nat) : Bool :=
  coefficient == 0 || decide (coefficient < 0x10000000000000 ∧ places ≤ 22)

/-- The text after a minus, if it starts with one, and whether it does. -/
def splitMinus (t : Text) : Bool × Text :=
  match Text.after? "-" t with
  | some rest => (true, rest)
  | none => (false, t)

/-- A number with a point or an exponent, or too large for an integer.  It must not
overflow.  Digits may be missing before the exponent or in it, if the number is short and
its exponent has at most two. -/
def double? (t : Text) : Option Datum := do
  let (negative, body) := splitMinus t
  let (digits, places, rest) := Numeral.takeMantissa Numeral.digit? body
  let coefficient := Numeral.ofDigits 10 digits
  let (e, width) ←
    match rest with
    | [] => some (0, 0)
    | mark :: rest' => if Numeral.lower mark = Text.byte 'e' then exponent? rest' else none
  let complete := !digits.isEmpty && (rest.isEmpty || decide (0 < width))
  let n := Numeral.decimal negative ⟨coefficient, e - places⟩
  if n.overflows || !(complete || (decide (width ≤ 2) && isShort coefficient places)) then none
  else some (.double n.value)

/-- A 64-bit integer of a size, if it fits with its sign. -/
def signed? (negative : Bool) (n : Nat) : Option Datum :=
  if negative then
    if n ≤ 0x8000000000000000 then some (.integer .int64 (-(n : Int))) else none
  else if n < 0x8000000000000000 then some (.integer .int64 n)
  else none

/-- Digits after an optional minus are an integer.  It must fit 64 bits with its sign,
unless it does not even fit them without. -/
def number? (t : Text) : Option Datum :=
  let (negative, body) := splitMinus t
  match Numeral.takeDigits Numeral.digit? body with
  | (digits, []) =>
    let n := Numeral.ofDigits 10 digits
    if 0x10000000000000000 ≤ n then double? t else signed? negative n
  | _ => double? t

/-- The size of a whole number that may be written with a point or an exponent.  Up to
nineteen places are moved, and what passes 64 bits on the way is lost. -/
def wholeSize? (t : Text) : Option Nat := do
  let (digits, places, rest) := Numeral.takeMantissa Numeral.digit? t
  let coefficient := Numeral.ofDigits 10 digits
  let (e, width) ←
    match rest with
    | [] => some (0, 0)
    | mark :: rest' => if Numeral.lower mark = Text.byte 'e' then exponent? rest' else none
  let shift := e - (places : Int)
  if 0x10000000000000000 ≤ coefficient ∨ 2 < width then none
  else if coefficient = 0 then some 0
  else if 19 < shift.natAbs then none
  else if shift < 0 then
    let parts := Nat.pow 10 shift.natAbs
    if coefficient % parts = 0 then some (coefficient / parts) else none
  else some (coefficient * Nat.pow 10 shift.natAbs % 0x10000000000000000)

/-- A number where an integer must stand; nothing at all is zero. -/
def integer? (t : Text) : Option Datum :=
  match splitMinus t with
  | (true, []) => none
  | (negative, body) => (wholeSize? body).bind (signed? negative)

/-! ## Reading strings -/

/-- A code unit from four hexadecimal digits; anything else stands for the replacement
character. -/
def codeUnit (t : Text) : Nat :=
  match t.mapM Numeral.hexDigit? with
  | some ds => Numeral.ofDigits 16 ds
  | none => 0xFFFD

/-- Whether a code unit is half of a pair. -/
def isSurrogate (n : Nat) : Bool := 0xD800 ≤ n && n < 0xE000

/-- The code point of a pair, if its halves fit. -/
def pairPoint (high low : Nat) : Nat :=
  if 0xD800 ≤ high ∧ high < 0xDC00 ∧ 0xDC00 ≤ low ∧ low < 0xE000 then
    0x10000 + (high - 0xD800) * 0x400 + (low - 0xDC00)
  else 0xFFFD

/-- The code point after `\u` and the number of bytes that spell it. -/
def codePoint? (t : Text) : Option (Nat × Nat) :=
  if t.length < 4 then none
  else
    let n := codeUnit (t.take 4)
    if isSurrogate n then
      if t.length < 10 then none
      else if (t.drop 4).take 2 = Text.ofString "\\u" then
        some (pairPoint n (codeUnit ((t.drop 6).take 4)), 10)
      else some (0xFFFD, 10)
    else some (n, 4)

/-- The byte that a one-letter escape stands for. -/
def letterEscape? (b : UInt8) : Option UInt8 :=
  if b = Text.byte '"' ∨ b = Text.byte '\\' ∨ b = Text.byte '/' ∨ b = Text.byte '\'' then some b
  else if b = Text.byte 'b' then some 0x08
  else if b = Text.byte 'f' then some 0x0C
  else if b = Text.byte 'n' then some 0x0A
  else if b = Text.byte 'r' then some 0x0D
  else if b = Text.byte 't' then some 0x09
  else none

/-- The contents of a string up to its closing quote, and what follows it.  `skip` bytes
have been read already. -/
def stringFrom : (skip : Nat) → Text → Option (Text × Text)
  | _, [] => none
  | skip + 1, _ :: t => stringFrom skip t
  | 0, b :: t =>
    if b = Text.byte '"' then some ([], t)
    else if b = Text.byte '\\' then
      match t with
      | [] => none
      | e :: t' =>
        if e = Text.byte 'u' then
          match codePoint? t' with
          | none => none
          | some (n, width) => do
            let (s, rest) ← stringFrom (1 + width) (e :: t')
            some (String.utf8EncodeChar (Char.ofNat n) ++ s, rest)
        else
          match letterEscape? e with
          | none => none
          | some c => do
            let (s, rest) ← stringFrom 1 (e :: t')
            some (c :: s, rest)
    else do
      let (s, rest) ← stringFrom 0 t
      some (b :: s, rest)

/-! ## Reading values -/

/-- Everything up to the space is whitespace. -/
def skipBlanks (t : Text) : Text := t.dropWhile (· < 0x21)

/-- The deepest nesting of arrays and objects that is read. -/
def maxDepth : Nat := 1023

/-- The key of a field: a string, a bare word, or whatever number stands there. -/
def key? (t : Text) : Option (Text × Text) :=
  match t with
  | [] => none
  | b :: rest =>
    if b = Text.byte '"' then stringFrom 0 rest
    else if b = Text.byte 'n' then (Text.after? "null" t).map ([], ·)
    else if b = Text.byte 't' then (Text.after? "true" t).map (Text.ofString "true", ·)
    else if b = Text.byte 'f' then (Text.after? "false" t).map (Text.ofString "false", ·)
    else some (t.takeWhile isNumberByte, t.dropWhile isNumberByte)

/-- A truth value. -/
def truth? (t : Text) : Option (Bool × Text) :=
  match Text.after? "true" t with
  | some rest => some (true, rest)
  | none => (Text.after? "false" t).map (false, ·)

/-- The bytes of a number where one must stand: those between quotes, or else as many as
there are, which may be none. -/
def numberBytes? (t : Text) : Option (Text × Text) :=
  match t with
  | [] => none
  | b :: rest =>
    if b = Text.byte '"' then
      match rest.dropWhile (· != Text.byte '"') with
      | [] => none
      | _ :: after => some (rest.takeWhile (· != Text.byte '"'), after)
    else some (t.takeWhile isNumberByte, t.dropWhile isNumberByte)

/-! ## Passing over values -/

/-- Whether a byte opens an array or object. -/
def opens (b : UInt8) : Bool := b == Text.byte '[' || b == 0x7B

/-- Whether a byte closes an array or object. -/
def closes (b : UInt8) : Bool := b == Text.byte ']' || b == 0x7D

/-- What follows the brackets that are open, or the string if none are.  Brackets are only
counted. -/
def afterOpen? : (levels : Nat) → (quoted escaped : Bool) → Text → Option Text
  | _, _, _, [] => none
  | levels, quoted, true, _ :: t => afterOpen? levels quoted false t
  | levels, true, false, b :: t =>
    if b = Text.byte '"' then
      if levels = 0 then some t else afterOpen? levels false false t
    else afterOpen? levels true (b == Text.byte '\\') t
  | levels, false, false, b :: t =>
    if b = Text.byte '"' then afterOpen? levels true false t
    else if opens b then afterOpen? (levels + 1) false false t
    else if closes b then
      if levels ≤ 1 then some t else afterOpen? (levels - 1) false false t
    else afterOpen? levels false false t

/-- What follows a value that nobody wants. -/
def afterValue? (t : Text) : Option Text :=
  match skipBlanks t with
  | [] => none
  | b :: rest =>
    if b = Text.byte '"' then afterOpen? 0 true false rest
    else if opens b then afterOpen? 1 false false rest
    else if b = Text.byte 'n' then Text.after? "null" (b :: rest)
    else if b = Text.byte 't' then Text.after? "true" (b :: rest)
    else if b = Text.byte 'f' then Text.after? "false" (b :: rest)
    else some ((b :: rest).dropWhile isNumberByte)

/-! ## Values over values -/

mutual

/-- One value off the front of a text, inside `depth` arrays and objects, over the value
that stood in its place before.  Where nothing stood that is null. -/
def valueFrom : (fuel : Nat) → (depth : Nat) → (before : Datum) → Text → Option (Datum × Text)
  | 0, _, _, _ => none
  | fuel + 1, depth, before, t =>
    match skipBlanks t with
    | [] => none
    | b :: rest =>
      if b = Text.byte 'n' then (Text.after? "null" (b :: rest)).map (.null, ·)
      else
        match before with
        | .bool _ => do
          let (v, rest) ← truth? (b :: rest)
          some (.bool v, rest)
        | .integer _ _ => do
          let (number, rest) ← numberBytes? (b :: rest)
          let d ← integer? number
          some (d, rest)
        | .double _ => do
          let (number, rest) ← numberBytes? (b :: rest)
          let d ← double? number
          some (d, rest)
        | .text _ => do
          let (s, rest) ← key? (b :: rest)
          some (.text s, rest)
        | .array items =>
          if maxDepth ≤ depth then none
          else if b = Text.byte '[' then do
            let (items, rest) ← itemsOver fuel (depth + 1) true items rest
            some (.array items, rest)
          else if b = 0x7B then do
            let (items, rest) ← membersOver fuel (depth + 1) true false items rest
            some (.array items, rest)
          else none
        | .object fields =>
          if maxDepth ≤ depth then none
          else if b = 0x7B then do
            let (fields, rest) ← fieldsFrom fuel (depth + 1) true fields rest
            some (Datum.objectOf fields.reverse, rest)
          else none
        | _ =>
          if b = Text.byte '"' then do
            let (s, rest) ← stringFrom 0 rest
            some (.text s, rest)
          else if b = Text.byte 't' ∨ b = Text.byte 'f' then do
            let (v, rest) ← truth? (b :: rest)
            some (.bool v, rest)
          else if b = Text.byte '[' then
            if maxDepth ≤ depth then none
            else do
              let (items, rest) ← itemsFrom fuel (depth + 1) true rest
              some (.array items, rest)
          else if b = 0x7B then
            if maxDepth ≤ depth then none
            else do
              let (fields, rest) ← fieldsFrom fuel (depth + 1) true [] rest
              some (Datum.objectOf fields.reverse, rest)
          else if isNumberByte b then do
            let d ← number? ((b :: rest).takeWhile isNumberByte)
            some (d, (b :: rest).dropWhile isNumberByte)
          else none

/-- The items of an array up to its closing bracket.  All but the first follow a comma. -/
def itemsFrom : (fuel : Nat) → (depth : Nat) → (first : Bool) → Text → Option (List Datum × Text)
  | 0, _, _, _ => none
  | fuel + 1, depth, first, t =>
    match skipBlanks t with
    | [] => none
    | b :: rest =>
      if b = Text.byte ']' then some ([], rest)
      else do
        let start ← if first then some (b :: rest) else if b = Text.byte ',' then some rest else none
        let (d, rest) ← valueFrom fuel depth .null start
        let (ds, rest) ← itemsFrom fuel depth false rest
        some (d :: ds, rest)

/-- The items of an array over those of an earlier one, up to the closing bracket. -/
def itemsOver : (fuel : Nat) → (depth : Nat) → (first : Bool) → (before : List Datum) → Text →
    Option (List Datum × Text)
  | 0, _, _, _, _ => none
  | fuel + 1, depth, first, before, t =>
    match skipBlanks t with
    | [] => none
    | b :: rest =>
      if b = Text.byte ']' then some (before, rest)
      else do
        let start ← if first then some (b :: rest) else if b = Text.byte ',' then some rest else none
        match before with
        | [] => do
          let rest ← afterValue? start
          itemsOver fuel depth false [] rest
        | d :: ds => do
          let (d, rest) ← valueFrom fuel depth d start
          let (ds, rest) ← itemsOver fuel depth false ds rest
          some (d :: ds, rest)

/-- The keys and values of an object in turn over the items of an earlier array, up to the
closing brace.  A value follows a colon. -/
def membersOver : (fuel : Nat) → (depth : Nat) → (first value : Bool) → (before : List Datum) →
    Text → Option (List Datum × Text)
  | 0, _, _, _, _, _ => none
  | fuel + 1, depth, first, value, before, t =>
    match skipBlanks t with
    | [] => none
    | b :: rest =>
      if b = 0x7D then some (before, rest)
      else do
        let start ←
          if first then some (b :: rest)
          else if b = Text.byte (if value then ':' else ',') then some rest
          else none
        match before with
        | [] => do
          let rest ← afterValue? start
          membersOver fuel depth false (!value) [] rest
        | d :: ds => do
          let (d, rest) ← valueFrom fuel depth d start
          let (ds, rest) ← membersOver fuel depth false (!value) ds rest
          some (d :: ds, rest)

/-- The fields of an object up to its closing brace, on top of those before.  All but the
first follow a comma, and the latest one comes first. -/
def fieldsFrom : (fuel : Nat) → (depth : Nat) → (first : Bool) → (before : List (Text × Datum)) →
    Text → Option (List (Text × Datum) × Text)
  | 0, _, _, _, _ => none
  | fuel + 1, depth, first, before, t =>
    match skipBlanks t with
    | [] => none
    | b :: rest =>
      if b = 0x7D then some (before, rest)
      else do
        let start ← if first then some (b :: rest) else if b = Text.byte ',' then some rest else none
        let (k, rest) ← key? (skipBlanks start)
        match skipBlanks rest with
        | [] => none
        | colon :: rest =>
          if colon = Text.byte ':' then do
            let (d, rest) ← valueFrom fuel depth ((Datum.field? k before).getD .null) rest
            fieldsFrom fuel depth false ((k, d) :: before) rest
          else none

end

end Argot.Json

namespace Argot.Datum

/-- The JSON text of data. -/
def toJson (d : Datum) : Text := Json.write d []

/-- The value at the front of a JSON text. -/
def ofJson? (t : Text) : Option Datum :=
  (Json.valueFrom (2 * t.length + 2) 0 .null t).map Prod.fst

end Argot.Datum
