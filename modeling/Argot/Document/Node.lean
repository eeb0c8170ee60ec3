import Argot.Document.Item

set_option autoImplicit false

/-!
# The structure of documents

A document is a scalar, a list or a mapping, and so are the parts of lists and mappings.
Lists and mappings are written between brackets, or by lines; then the column in which a
key or a dash stands decides what it belongs to.

No key stands twice in one mapping.  An alias stands for what its anchor marks, which has
to come before it.

Normative source: SPEC_FULL §12 (vocabulary files).
-/

namespace Argot.Document

/-- What a document holds. -/
inductive Node where
  /-- a tag or a directive, and nothing else -/
  | nothing
  | scalar (s : Scalar)
  | list (items : List Node)
  /-- values by their keys, for keys that are text -/
  | map (fields : List (Option Text × Node))
  deriving Inhabited, Repr

/-- The fields of a mapping. -/
def Node.fields? : Node → Option (List (Option Text × Node))
  | .map fields => some fields
  | _ => none

/-- The keys that lead to a part of a document, innermost first. -/
abbrev Path : Type := List (List Char)

/-- Reading a document: the items ahead, the keys met so far, and what the anchors met so
far mark. -/
structure Parser where
  items : List Item
  keys : List Path
  anchors : List (List Char × Node)

/-- A part of reading a document. -/
abbrev Parse (α : Type) : Type := StateT Parser Option α

namespace Parse

/-- The item at hand. -/
def current : Parse (Option Item) := fun p => some (p.items.head?, p)

/-- The item after the one at hand. -/
def following : Parse (Option Item) := fun p => some (p.items.tail.head?, p)

/-- Moves on to the next item. -/
def advance : Parse Unit := modify fun p => { p with items := p.items.tail }

/-- Remembers what an anchor marks. -/
def define (name : Item) (n : Node) : Parse Unit :=
  modify fun p => { p with anchors := (name.first.text, n) :: p.anchors }

/-- What the anchor of a name marks. -/
def resolve (name : Item) : Parse Node := fun p =>
  (p.anchors.lookup name.first.text).map (·, p)

/-! ## Scalars -/

/-- What a tag makes of a node. -/
def applyTag (tag : Token) (n : Node) : Option Node :=
  let is (name : String) : Bool := tag.text == name.toList
  match n with
  | .scalar s =>
    if is "!!null" then some .nothing
    else if is "!!str" then some (.scalar (.text (s.text?.getD [])))
    else if is "!!binary" || is "!!timestamp" then none
    else if s = .null then some .nothing
    else if is "!!int" || is "!!float" then
      match s with
      | .number _ => some n
      | _ => none
    else if is "!!bool" then
      match s with
      | .truth _ => some n
      | _ => none
    else some n
  | _ => some n

/-- The scalar of an item. -/
def scalar : Item → Parse Node
  | .token t =>
    match t.scalar? with
    | some s => pure (.scalar s)
    | none => failure
  | .block _ none => pure (.scalar (.text []))
  | .block _ (some t) =>
    match t.scalar? with
    | some (.text s) => pure (.scalar (.text s))
    | _ => failure
  | .anchored _ name value => do
    let n ← scalar value
    define name n
    pure n
  | .alias _ name => resolve name
  | .tagged tag value => do
    let n ← scalar value
    match applyTag tag n with
    | some n => pure n
    | none => failure
  | _ => failure

/-! ## Keys -/

/-- The text by which a key is told from others. -/
def keyText : Item → List Char
  | .tagged _ value => keyText value
  | .anchored _ _ value => keyText value
  | .alias _ _ => []
  | i => i.first.text

/-- Spaces and line breaks. -/
def isGap (c : Char) : Bool := c == ' ' || isBreak c

/-- Whether a key is written on one line. -/
def onOneLine (flow : Bool) (t : Token) : Bool :=
  let front := t.source.dropWhile isGap
  let written :=
    match t.kind with
    | .plain (.text _) => if flow then (front.reverse.dropWhile isGap).reverse else front
    | _ => front
  !written.any isBreak

/-- A key of a mapping. -/
structure Key where
  text : List Char
  /-- the key, if it is text -/
  name : Option Text
  merges : Bool

/-- Reads the key of an item. -/
def key (flow : Bool) (path : Path) (i : Item) : Parse Key := do
  let (inner, mark) ←
    match i with
    | .asked mark k => pure (k, mark)
    | .key (.asked mark k) _ => pure (k, mark)
    | .key k _ => pure (k, k.first)
    | _ => failure
  let merges := inner.isMark .merge
  let n ← if merges then pure Node.nothing else scalar inner
  let text := keyText inner
  let seen := (← get).keys
  if seen.contains (text :: path) || !onOneLine flow mark then failure
  else do
    modify fun p => { p with keys := (text :: path) :: p.keys }
    match n with
    | .scalar (.text t) => pure ⟨text, some t, merges⟩
    | _ => pure ⟨text, none, merges⟩

/-- The fields that a key and its value add to a mapping. -/
def fieldsOf (k : Key) (value : Node) : Option (List (Option Text × Node)) :=
  if k.merges then
    match value with
    | .list items => (items.mapM Node.fields?).map List.flatten
    | n => n.fields?
  else some [(k.name, value)]

/-- Adds the fields of a key and its value. -/
def withField (k : Key) (value : Node) (rest : List (Option Text × Node)) :
    Parse (List (Option Text × Node)) :=
  match fieldsOf k value with
  | some fields => pure (fields ++ rest)
  | none => failure

/-! ## Directives -/

/-- The versions that a document may ask for. -/
def versions : List String := ["1.0", "1.1", "1.2", "1.3"]

/-- Whether a directive is well formed. -/
def isDirective (values : List Item) : Bool :=
  match values with
  | [] => false
  | name :: rest =>
    if name.first.text == "YAML".toList then
      match rest with
      | [v] => (versions.map String.toList).contains v.first.text
      | _ => false
    else if name.first.text == "TAG".toList then rest.length == 2
    else true

/-! ## Collections -/

/-- Whether an item belongs to a mapping: a key, or a brace. -/
def isMapItem (i : Item) : Bool := i.isKey || i.isMark .openMap || i.isMark .closeMap

/-- Whether an item ends an entry between braces. -/
def endsEntry (i : Item) : Bool := i.isMark .closeMap || i.isMark .comma

/-- Whether an item may follow a field that starts in a column. -/
def mayFollow (flow : Bool) (column : Nat) (i : Item) : Bool :=
  decide (i.column ≤ column) || (flow && (i.kind == .comma || i.kind == .closeList))

mutual

/-- Reads a node. -/
def node (fuel : Nat) (flow : Bool) (path : Path) : Parse Node :=
  match fuel with
  | 0 => failure
  | fuel + 1 => do
    let some i ← current | failure
    match i with
    | .asked _ _ => return .map (← fields fuel flow path)
    | .key _ _ => return .map (← fields fuel flow path)
    | .field _ _ => return .map (← fields fuel flow path)
    | .directive _ values =>
      advance
      if isDirective values then pure .nothing else failure
    | .anchor _ name =>
      advance
      let some value ← current | failure
      if value.kind = .anchor then failure
      else
        let n ← node fuel flow path
        define name n
        pure n
    | .token t =>
      match t.kind with
      | .tag => do
        advance
        tagValue fuel flow path t
      | .openMap => do
        advance
        return .map (← flowFields fuel path true)
      | .openList => do
        advance
        return .list (← flowItems fuel path 0)
      | .dash => return .list (← listItems fuel flow path t.position.column 0)
      | _ => do
        let n ← scalar i
        advance
        pure n
    | _ =>
      let n ← scalar i
      advance
      pure n

/-- Reads what a tag is put on. -/
def tagValue (fuel : Nat) (flow : Bool) (path : Path) (tag : Token) : Parse Node :=
  match fuel with
  | 0 => failure
  | fuel + 1 => do
    let n ←
      match ← current with
      | none => pure (Node.scalar .null)
      | some i =>
        if (scalarTags.map String.toList).contains tag.text then
          if i.isMark .comma then pure (Node.scalar .null)
          else do
            let n ← scalar i
            advance
            pure n
        else node fuel flow path
    match applyTag tag n with
    | some n => pure n
    | none => failure

/-- Reads the fields of a mapping by lines: those whose keys stand in the column of the
first. -/
def fields (fuel : Nat) (flow : Bool) (path : Path) : Parse (List (Option Text × Node)) :=
  match fuel with
  | 0 => failure
  | fuel + 1 => do
    let some i ← current | failure
    let (k, value) ←
      match i with
      | .field k v => do
        let k ← key flow path k
        let value ← scalar v
        advance
        match ← current with
        | none => pure (k, value)
        | some n => if mayFollow flow i.column n then pure (k, value) else failure
      | _ => do
        let k ← key flow path i
        advance
        let value ← fieldValue fuel flow (k.text :: path) i
        pure (k, value)
    match ← current with
    | none => withField k value []
    | some n =>
      if n.column ≠ i.column ∨ (flow ∧ n.isMark .closeList) then withField k value []
      else if n.isMark .closeMap then do
        advance
        withField k value []
      else if n.isKey then do
        let rest ← fields fuel flow path
        withField k value rest
      else failure

/-- Reads the value of a key that stands alone: what follows, if it is indented further
or on the same line, or a list in the column of the key. -/
def fieldValue (fuel : Nat) (flow : Bool) (path : Path) (k : Item) : Parse Node :=
  match fuel with
  | 0 => failure
  | fuel + 1 => do
    let some n ← current | pure (.scalar .null)
    let next ← following
    if n.line = k.line ∧ (n.kind = .dash ∨ (n.isKey ∧ n.column ≠ k.column)) then failure
    else if n.column = k.column ∧ isMapItem n then pure (.scalar .null)
    else if n.isAnchor ∧ n.line = k.line ∧
        next.all (fun m => decide (m.column < k.column) || (m.column == k.column && isMapItem m)) then
      match n with
      | .anchor _ name => do
        define name (.scalar .null)
        advance
        pure (.scalar .null)
      | _ => failure
    else if n.column ≤ k.column ∧ (n.isAnchor ∨ n.kind = .tag) then failure
    else if n.column < k.column then pure (.scalar .null)
    else node fuel flow path

/-- Reads the items of a list by lines, whose dashes stand in one column. -/
def listItems (fuel : Nat) (flow : Bool) (path : Path) (column count : Nat) : Parse (List Node) :=
  match fuel with
  | 0 => failure
  | fuel + 1 => do
    let some i ← current | pure []
    if i.isMark .dash ∧ i.column = column then do
      advance
      let value ←
        match ← current with
        | none => pure (Node.scalar .null)
        | some n =>
          if n.column = column ∧ n.isMark .dash then pure (Node.scalar .null)
          else if n.column ≤ column ∧ (n.isAnchor ∨ n.kind = .tag) then failure
          else if n.column < column then pure (Node.scalar .null)
          else node fuel flow ((Nat.toDigits 10 count) :: path)
      let rest ← listItems fuel flow path column (count + 1)
      pure (value :: rest)
    else pure []

/-- Reads the fields of a mapping between braces. -/
def flowFields (fuel : Nat) (path : Path) (first : Bool) : Parse (List (Option Text × Node)) :=
  match fuel with
  | 0 => failure
  | fuel + 1 => do
    let some i ← current | failure
    if i.isMark .closeMap then do
      advance
      pure []
    else if !i.isMark .comma && !first then failure
    else do
      if i.isMark .comma then advance
      let some i ← current | failure
      if i.isMark .closeMap then do
        advance
        pure []
      else do
        let next ← following
        let (k, value) ←
          match i with
          | .field k v => do
            let k ← key true path k
            let value ← scalar v
            advance
            pure (k, value)
          | .asked _ _ => flowField fuel path i
          | .key _ _ => flowField fuel path i
          | _ =>
            if next.any endsEntry then do
              let n ← scalar i
              advance
              let name :=
                match n with
                | .scalar (.text t) => some t
                | _ => none
              pure (⟨keyText i, name, false⟩, Node.scalar .null)
            else failure
        let rest ← flowFields fuel path false
        withField k value rest

/-- Reads a key between braces that is not followed by a scalar on its line, and its
value. -/
def flowField (fuel : Nat) (path : Path) (i : Item) : Parse (Key × Node) :=
  match fuel with
  | 0 => failure
  | fuel + 1 => do
    let k ← key true path i
    advance
    let some n ← current | failure
    if endsEntry n then pure (k, .scalar .null)
    else
      let value ← node fuel true (k.text :: path)
      pure (k, value)

/-- Reads the items of a list between brackets. -/
def flowItems (fuel : Nat) (path : Path) (count : Nat) : Parse (List Node) :=
  match fuel with
  | 0 => failure
  | fuel + 1 => do
    let some i ← current | failure
    if i.isMark .closeList then do
      advance
      pure []
    else if i.isMark .comma == (count == 0) then failure
    else do
      if i.isMark .comma then advance
      let some i ← current | failure
      if i.isMark .closeList then do
        advance
        pure []
      else do
        let value ← node fuel true ((Nat.toDigits 10 count) :: path)
        let rest ← flowItems fuel path (count + 1)
        pure (value :: rest)

end

end Parse

/-- The node that the items of a document make up; nothing is left over.  A document
without items has none. -/
def body? (items : List Item) : Option (Option Node) :=
  if items.isEmpty then some none
  else
    match Parse.node (6 * items.length + 6) false [] ⟨items, [], []⟩ with
    | some (n, p) => if p.items.isEmpty then some (some n) else none
    | none => none

end Argot.Document
