import Argot.Document.Lexer

set_option autoImplicit false

/-!
# Items of documents

Before a document is read as a whole, tokens that belong together become one item: a tag
or an anchor with its scalar, a key with its colon, and a key with a scalar on the same
line.

Normative source: SPEC_FULL §12 (vocabulary files).
-/

namespace Argot.Document

/-- One or more tokens that belong together. -/
inductive Item where
  | token (t : Token)
  /-- a block scalar: its head and its text -/
  | block (head : Token) (content : Option Token)
  /-- an anchor whose value is yet to come -/
  | anchor (mark : Token) (name : Item)
  | anchored (mark : Token) (name value : Item)
  | alias (mark : Token) (name : Item)
  | tagged (tag : Token) (value : Item)
  /-- a key after a question mark -/
  | asked (mark : Token) (key : Item)
  | key (key : Item) (colon : Token)
  /-- a key and its value -/
  | field (key value : Item)
  | directive (mark : Token) (values : List Item)
  deriving Inhabited

namespace Item

/-- The first token of an item. -/
def first : Item → Token
  | .token t => t
  | .block head _ => head
  | .anchor mark _ => mark
  | .anchored mark _ _ => mark
  | .alias mark _ => mark
  | .tagged tag _ => tag
  | .asked mark _ => mark
  | .key k _ => k.first
  | .field k _ => k.first
  | .directive mark _ => mark

/-- The kind of an item is that of its first token. -/
def kind (i : Item) : Kind := i.first.kind

/-- The line on which an item starts. -/
def line (i : Item) : Nat := i.first.position.line

/-- The column at which an item starts. -/
def column (i : Item) : Nat := i.first.position.column

/-- Whether an item is a key, with or without its value. -/
def isKey : Item → Bool
  | .asked _ _ => true
  | .key _ _ => true
  | .field _ _ => true
  | _ => false

/-- Whether an item is a scalar. -/
def isScalar (i : Item) : Bool :=
  !i.isKey &&
    match i.kind with
    | .anchor => true
    | .alias => true
    | .block => true
    | .plain _ => true
    | .quoted => true
    | _ => false

/-- Whether an item is an anchor without a value. -/
def isAnchor : Item → Bool
  | .anchor _ _ => true
  | _ => false

/-- Whether an item is a token of some kind. -/
def isMark (i : Item) (k : Kind) : Bool :=
  match i with
  | .token t => t.kind == k
  | _ => false

end Item

/-! ## Joining tokens -/

/-- Gives the heads of block scalars their text. -/
def joinBlocks : List Token → List Item
  | [] => []
  | [t] => [if t.kind = .block then .block t none else .token t]
  | t :: u :: rest =>
    if t.kind = .block then .block t (some u) :: joinBlocks rest
    else .token t :: joinBlocks (u :: rest)

/-- Gives anchors and aliases their names, and anchors a scalar on the same line. -/
def joinNames (fuel : Nat) (items : List Item) : Option (List Item) :=
  match fuel, items with
  | _, [] => some []
  | 0, _ => none
  | fuel + 1, i :: rest =>
    if i.isMark .anchor then
      match rest with
      | name :: value :: rest' =>
        if i.line = value.line ∧ value.kind = .dash then none
        else if i.line = value.line ∧ value.isScalar then
          (joinNames fuel rest').map (.anchored i.first name value :: ·)
        else (joinNames fuel (value :: rest')).map (.anchor i.first name :: ·)
      | _ => none
    else if i.isMark .alias then
      match rest with
      | name :: rest' => (joinNames fuel rest').map (.alias i.first name :: ·)
      | [] => none
    else (joinNames fuel rest).map (i :: ·)

/-- The standard tags of scalars. -/
def scalarTags : List String :=
  ["!!int", "!!float", "!!str", "!!binary", "!!timestamp", "!!bool", "!!null"]

/-- Whether a tag takes the item after it, on the same line, for its scalar. -/
def takesScalar (tag : Token) (value : Item) : Bool :=
  if tag.position.line ≠ value.line || value.isAnchor then false
  else if tag.text.take 2 == "!!".toList then
    (scalarTags.map String.toList).contains tag.text && value.isScalar
  else
    match value.kind with
    | .openMap => false
    | .closeMap => false
    | .openList => false
    | .dash => false
    | _ => true

/-- Gives tags their scalars. -/
def joinTags : List Item → List Item
  | [] => []
  | [i] => [i]
  | i :: value :: rest =>
    if i.isMark .tag && takesScalar i.first value then .tagged i.first value :: joinTags rest
    else i :: joinTags (value :: rest)

/-- Gives anchors a tagged scalar on the same line. -/
def joinTagged : List Item → List Item
  | [] => []
  | [i] => [i]
  | i :: value :: rest =>
    match i, value with
    | .anchor mark name, .tagged tag scalar =>
      if mark.position.line = tag.position.line then
        .anchored mark name (.tagged tag scalar) :: joinTagged rest
      else i :: joinTagged (value :: rest)
    | _, _ => i :: joinTagged (value :: rest)

/-- Gives question marks their keys. -/
def joinQuestions : List Item → Option (List Item)
  | [] => some []
  | [i] => if i.isMark .question then none else some [i]
  | i :: key :: rest =>
    if i.isMark .question then (joinQuestions rest).map (.asked i.first key :: ·)
    else (joinQuestions (key :: rest)).map (i :: ·)

/-- Whether an item can be a key. -/
def canBeKey : Item → Bool
  | .key _ _ => false
  | i =>
    match i.kind with
    | .directive => false
    | .documentStart => false
    | .documentEnd => false
    | .comma => false
    | .openMap => false
    | .closeMap => false
    | .openList => false
    | .closeList => false
    | .dash => false
    | _ => true

/-- Gives colons the key before them.  The items before are listed latest first. -/
def joinColons (before : List Item) : List Item → Option (List Item)
  | [] => some before.reverse
  | i :: rest =>
    if i.isMark .colon then
      match before with
      | [] => none
      | key :: before => if canBeKey key then joinColons (.key key i.first :: before) rest else none
    else joinColons (i :: before) rest

/-- Whether an item is the value of the key before it, on the same line. -/
def isFieldValue (key value : Item) : Bool :=
  key.line == value.line && !value.isAnchor &&
    match value with
    | .tagged _ _ => true
    | _ => value.isScalar

/-- Gives keys the scalar after them on the same line. -/
def joinFields : List Item → List Item
  | [] => []
  | [i] => [i]
  | i :: value :: rest =>
    match i with
    | .key _ _ => if isFieldValue i value then .field i value :: joinFields rest
        else i :: joinFields (value :: rest)
    | .asked _ _ => if isFieldValue i value then .field i value :: joinFields rest
        else i :: joinFields (value :: rest)
    | _ => i :: joinFields (value :: rest)

/-- Gives directives the rest of their line.  A document has to start after them. -/
def joinDirectives : (fuel : Nat) → List Item → Option (List Item)
  | _, [] => some []
  | 0, _ => none
  | fuel + 1, i :: rest =>
    if i.isMark .directive then
      match rest with
      | [] => none
      | name :: rest =>
        let values := rest.takeWhile (·.line = i.line)
        match rest.drop values.length with
        | [] => none
        | start :: after =>
          if start.isMark .documentStart then
            (joinDirectives fuel (start :: after)).map (.directive i.first (name :: values) :: ·)
          else none
    else (joinDirectives fuel rest).map (i :: ·)

/-- The items that tokens make up. -/
def items? (tokens : List Token) : Option (List Item) := do
  let items ← joinNames tokens.length (joinBlocks tokens)
  let items ← joinQuestions (joinTagged (joinTags items))
  let items ← joinColons [] items
  joinDirectives tokens.length (joinFields items)

/-! ## Dividing into documents -/

/-- The items of each document.  Nothing is read after two marks in a row that start a
document.  A document does not start with a key on the line of its mark, and no scalar
follows the end of a document. -/
def documents? (before : List Item) : List Item → Option (List (List Item))
  | [] => some [before.reverse]
  | i :: rest =>
    let finished := if before.isEmpty then [] else [before.reverse]
    if i.isMark .documentStart then
      match rest with
      | [] => some (finished ++ [[]])
      | next :: _ =>
        if next.isMark .documentStart then some (finished ++ [[]])
        else if i.line = next.line ∧ (next.isKey ∨ next.kind = .dash) then none
        else do
          let more ← documents? [] rest
          some (finished ++ if more.isEmpty then [[]] else more)
    else if i.isMark .documentEnd then
      match rest with
      | [] => some finished
      | next :: _ =>
        if next.isScalar then none
        else do
          let more ← documents? [] rest
          some (finished ++ more)
    else documents? (i :: before) rest

end Argot.Document
