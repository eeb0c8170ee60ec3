import Argot.Document.Quoted
import Argot.Document.Block

set_option autoImplicit false

/-!
# Cutting a document into tokens

The document is read character by character.  A mark ends the text collected so far and
becomes a token of its own; whether a character is a mark depends on what stands around
it.  Outside brackets, text goes on over the lines that are indented further than the key
before it, and a line that is not indented further ends it.

A tab inside a plain scalar does not count.

Normative source: SPEC_FULL §12 (vocabulary files).
-/

namespace Argot.Document

/-- How the line at hand is indented, seen from the last key. -/
inductive Margin where
  /-- not told yet, or no longer at the start of a line -/
  | level
  | inside
  | outside
  deriving DecidableEq, Repr, Inhabited

/-- Reading a document. -/
structure Lexer where
  rest : List Char
  position : Position
  /-- the blanks at the start of the line -/
  indent : Nat
  /-- the column of the last key or dash; zero if there was none -/
  keyColumn : Nat
  /-- whether only blanks have been read of the line -/
  fresh : Bool
  margin : Margin
  /-- inside the name of an anchor or alias -/
  naming : Bool
  /-- inside a directive -/
  directing : Bool
  /-- open brackets and braces -/
  lists : Nat
  maps : Nat
  draft : Draft
  /-- where a draft of several lines starts -/
  start : Option Position
  block : Option Block
  /-- the tokens, latest first -/
  tokens : List Token
  deriving Repr, Inhabited

/-- What a character turns out to be: a mistake, text, or a mark that has been dealt
with. -/
inductive Reading where
  | malformed
  | text
  | moved (s : Lexer)

namespace Lexer

/-! ## Moving on -/

/-- Before the first character. -/
def ofChars (cs : List Char) : Lexer where
  rest := cs
  position := ⟨1, 1⟩
  indent := 0
  keyColumn := 0
  fresh := true
  margin := .level
  naming := false
  directing := false
  lists := 0
  maps := 0
  draft := .empty
  start := none
  block := none
  tokens := []

/-- Moves on by some characters, of which `columns` count. -/
def move (s : Lexer) (count columns : Nat) : Lexer :=
  { s with rest := s.rest.drop count, position := s.position.right columns }

/-- At the start of the next line. -/
def startLine (s : Lexer) (rest : List Char) (p : Position) : Lexer :=
  { s with rest, position := p, indent := 0, fresh := true, naming := false, directing := false }

/-- Moves past the end of the line. -/
def nextLine (s : Lexer) : Lexer := s.startLine s.rest.tail s.position.nextLine

/-- Takes note of a character of the source. -/
def note (s : Lexer) (c : Char) : Lexer := { s with draft := s.draft.note c }

/-- Drops what has been collected. -/
def clear (s : Lexer) : Lexer := { s with draft := .empty, block := none }

/-- Whether brackets are open. -/
def inFlow (s : Lexer) : Bool := decide (0 < s.lists) || decide (0 < s.maps)

/-! ## Tokens -/

/-- Adds a token that starts here. -/
def emit (s : Lexer) (kind : Kind) (text : List Char) : Lexer :=
  { s with tokens := ⟨kind, text, s.draft.source.reverse, s.position⟩ :: s.tokens }

/-- The tags with a meaning of their own; what follows any other tag is text. -/
def standardTags : List String :=
  ["!!int", "!!float", "!!null", "!!seq", "!!map", "!!str", "!!bool", "!!binary", "!!omap",
    "!!set", "!!timestamp", "!!merge"]

/-- Whether the last token is a tag that makes text of whatever follows. -/
def afterLocalTag (s : Lexer) : Bool :=
  match s.tokens with
  | t :: _ => t.kind == .tag && !(standardTags.map String.toList).contains t.text
  | [] => false

/-- Makes a token of the text collected so far, if there is any. -/
def flush (s : Lexer) : Lexer :=
  let text := match s.block with
    | some b => b.chomp s.draft.text
    | none => s.draft.text
  if text.isEmpty then
    { s with start := none, draft := { s.draft with chars := [], slack := 0 } }
  else
    let column := if s.block.isSome then 0 else s.position.column - s.draft.chars.length
    let p := s.start.getD ⟨s.position.line, column⟩
    let scalar := if s.block.isSome || s.afterLocalTag then Scalar.text (encode text)
      else Scalar.ofPlain (encode text)
    { s with
      start := none
      draft := .empty
      tokens := ⟨.plain scalar, text, s.draft.source.reverse, p⟩ :: s.tokens }

/-- A mark of one character that ends the text before it. -/
def mark (s : Lexer) (kind : Kind) (c : Char) : Lexer :=
  (((s.flush.note c).emit kind [c]).move 1 1).clear

/-! ## Indentation -/

/-- Looks at a character for the indentation of its line. -/
def measure (s : Lexer) (c : Char) : Lexer :=
  if s.fresh then
    if isBreak c || c == '\t' then s
    else if c = ' ' then { s with indent := s.indent + 1 }
    else if s.keyColumn = 0 then { s with fresh := false }
    else
      { s with
        fresh := false
        margin := if s.keyColumn < s.position.column then .inside else .outside }
  else { s with margin := .level }

/-! ## Marks -/

/-- Three of a character, and not four, at the start of a line that is not indented. -/
def isRule (s : Lexer) (c : Char) : Bool :=
  s.indent == 0 && s.position.column == 1 && (s.rest.takeWhile (· == c)).length == 3

/-- The start of a document: a blank or the end of the line follows. -/
def documentStart (s : Lexer) : Reading :=
  if s.isRule '-' && (s.rest.drop 3).head?.all (fun c => isBlank c || isBreak c) then
    let s := (s.flush.emit .documentStart "---".toList).move 3 3
    .moved { s.clear with keyColumn := 0, indent := 0 }
  else .text

/-- The end of a document. -/
def documentEnd (s : Lexer) : Reading :=
  if s.isRule '.' then .moved ((s.flush.emit .documentEnd "...".toList).move 3 3).clear else .text

/-- A bracket that opens; outside brackets it must not follow text. -/
def opens (s : Lexer) (kind : Kind) (c : Char) : Reading :=
  if !s.draft.isEmpty && !s.inFlow then .text
  else
    let s := s.mark kind c
    .moved (if kind = .openMap then { s with maps := s.maps + 1 } else { s with lists := s.lists + 1 })

/-- A closing brace, if one is open. -/
def closeMap (s : Lexer) : Reading :=
  if s.maps = 0 then .text
  else .moved { s.mark .closeMap '\x7d' with maps := s.maps - 1 }

/-- A closing bracket; if none is open it must follow text to be text. -/
def closeList (s : Lexer) : Reading :=
  if !s.draft.isEmpty && s.lists == 0 then .text
  else .moved { s.mark .closeList ']' with lists := s.lists - 1 }

/-- Whether the source in hand starts with a tab, or with a space and a tab. -/
def startsWithTab (s : Lexer) : Bool :=
  match s.draft.source.reverse with
  | '\t' :: _ => true
  | ' ' :: '\t' :: _ => true
  | _ => false

/-- A colon.  It ends a key if a blank follows; between braces it does anyway, unless the
entry has one already. -/
def colon (s : Lexer) (next : Option Char) : Reading :=
  let separated := next.all fun c => isBlank c || isBreak c
  let again := s.tokens.head?.any (·.kind == .colon)
  if s.directing || s.naming then .text
  else if s.maps = 0 && !separated then .text
  else if 0 < s.maps ∧ (next = some '/' ∨ again) then .text
  else if s.startsWithTab then .malformed
  else
    let key := s.flush
    let column :=
      match key.tokens with
      | t :: _ => if !s.draft.isEmpty || t.kind == .quoted then t.position.column else s.keyColumn
      | [] => s.keyColumn
    let point : Token := ⟨.colon, [':'], [':'], key.position⟩
    .moved ({ key with keyColumn := column, tokens := point :: key.tokens }.move 1 1).clear

/-- A dash.  With a blank after it, it starts an item of a list; at the start of a line
that continues a text, it is part of the text. -/
def dash (s : Lexer) (next : Option Char) : Reading :=
  match s.documentStart with
  | .text =>
    if !s.draft.isEmpty then
      if s.margin = .inside then
        let block := (Block.start .dashed ⟨false, false, 0⟩ 0).atColumn s.position.column
        .moved ({ s with block := some block, draft := (s.draft.add '-').note '-' }.move 1 1)
      else .text
    else if next.any fun c => !(isBlank c || isBreak c) then .text
    else if s.startsWithTab then .malformed
    else .moved { s.mark .dash '-' with keyColumn := s.position.column }
  | reading => reading

/-- A question mark in front of a key. -/
def question (s : Lexer) (next : Option Char) : Reading :=
  if s.draft.isEmpty && next.any isBlank then
    let point : Token := ⟨.question, ['?'], ['?'], s.position⟩
    let s := { s with keyColumn := s.position.column, tokens := point :: s.tokens }
    .moved (s.move 1 1).clear
  else .text

/-- Whether a colon with a blank after it follows. -/
def colonFollows : List Char → Bool
  | [] => false
  | c :: t =>
    if c = ' ' then colonFollows t
    else if c = ':' then (t.head?.any fun n => n == ' ' || isBreak n) || colonFollows t
    else false

/-- The key that merges one mapping into another. -/
def merge (s : Lexer) : Reading :=
  if (s.rest.takeWhile (· == '<')).length = 2 ∧ colonFollows (s.rest.drop 2) then
    .moved { ((s.emit .merge "<<".toList).move 2 2).clear with keyColumn := s.position.column }
  else .text

/-- The mark of an anchor or an alias, whose name follows. -/
def name (s : Lexer) (kind : Kind) (c : Char) : Reading :=
  if s.draft.isEmpty then .moved { s.mark kind c with naming := true } else .text

/-- The mark of a directive, on a line that is not indented. -/
def directive (s : Lexer) : Reading :=
  if s.draft.isEmpty && s.indent == 0 then .moved { s.mark .directive '%' with directing := true }
  else .text

/-- A tag, up to a space, to the end of the line, or between brackets to a comma.  It
holds no braces. -/
def tag (s : Lexer) : Reading :=
  if !s.draft.isEmpty || s.directing then .text
  else
    let ends (c : Char) : Bool :=
      c == ' ' || isBreak c || (c == ',' && s.inFlow) || c == '\x7b' || c == '\x7d'
    let body := s.rest.tail.takeWhile (!ends ·)
    let text := '!' :: body
    match s.rest.tail.drop body.length with
    | [] => .moved (s.move text.length body.length).clear
    | c :: _ =>
      if c = '\x7b' ∨ c = '\x7d' then .malformed
      else if c = ' ' then .moved ((s.emit .tag text).move (text.length + 1) text.length).clear
      else .moved ((s.emit .tag text).move text.length body.length).clear

/-- A comment, which keeps its distance from text before it and goes to the end of the
line. -/
def comment (s : Lexer) : Reading :=
  if !s.draft.isEmpty && !s.draft.source.head?.any (fun c => isBlank c || isBreak c) then .text
  else
    let s := s.flush
    let body := s.rest.tail.takeWhile (!isBreak ·)
    let s := (s.emit .comment body).move (1 + body.length) body.length
    .moved s.nextLine.clear

/-- A quoted scalar, which must not follow text.  Reading goes on after its whole width. -/
def quote (s : Lexer) (c : Char) : Reading :=
  if !s.draft.isEmpty then .text
  else
    match Quoted.read s.keyColumn c s.position s.rest.tail with
    | none => .malformed
    | some (p, rest) =>
      let written := s.rest.take (s.rest.length - rest.length)
      let token : Token := ⟨.quoted, p.value.reverse, s.draft.source.reverse ++ written, s.position⟩
      let rest := rest.drop p.excess
      let s := if p.position.line = s.position.line then { s with rest, position := p.position }
        else s.startLine rest p.position
      .moved { s.clear with tokens := token :: s.tokens }

/-- The head of a block scalar, to the end of the line.  A comment may follow it. -/
def blockHead (s : Lexer) (style : BlockStyle) : Reading :=
  if !s.draft.isEmpty then .text
  else
    let line := s.rest.tail.takeWhile (!isBreak ·)
    let after := s.rest.tail.drop line.length
    let line := if after.isEmpty then line.dropLast else line
    let plain := line.takeWhile (· != '#')
    let written := if plain.isEmpty then line else plain
    let option := (written.reverse.dropWhile isBlank).reverse
    match BlockHead.ofOption? option with
    | none => .malformed
    | some head =>
      let column := if s.position.column = 1 then 1 else s.keyColumn
      let rest := match after with
        | '\r' :: '\n' :: rest => rest
        | rest => rest.tail
      let s := s.emit .block option
      let s := { s with
        keyColumn := column
        margin := .level
        draft := .empty
        block := some (Block.start style head column) }
      .moved (s.startLine rest s.position.nextLine)

/-- The end of a line. -/
def lineEnd (s : Lexer) (c : Char) : Lexer :=
  let s :=
    if s.draft.chars.isEmpty || s.start.isSome then s
    else
      let p := s.position
      { s with start := some ⟨p.line, p.column - s.draft.text.length⟩ }
  let s := { s with draft := s.draft.trim }
  let (s, c) := match c, s.rest with
    | '\r', '\r' :: '\n' :: rest => ({ s.note '\r' with rest := '\n' :: rest }, '\n')
    | _, _ => (s, c)
  let s := if s.rest.tail.isEmpty || s.naming || s.directing then s.flush else s
  ({ s with draft := s.draft.breakLine s.fresh }.note c).nextLine

/-- A space.  In front of a line it is indentation, and it ends a name. -/
def space (s : Lexer) : Reading :=
  if s.fresh then .moved ((s.note ' ').move 1 1)
  else if s.directing then .moved ((s.flush.note ' ').move 1 1)
  else if s.naming then .moved { s.flush with naming := false }
  else .text

/-- A tab.  To the right of the last key it does not count; elsewhere it must not
indent a line outside brackets. -/
def tab (s : Lexer) : Reading :=
  if (!s.draft.isEmpty && s.keyColumn == 0) || decide (s.keyColumn < s.position.column) then
    .moved ({ s.note '\t' with indent := s.indent + 1 }.move 1 0)
  else if s.inFlow || !s.fresh then .text
  else .malformed

/-- A character that must not start a scalar. -/
def reserved (s : Lexer) : Reading := if s.draft.isEmpty then .malformed else .text

/-- What a character turns out to be. -/
def reading (s : Lexer) (c : Char) : Reading :=
  let next := s.rest.tail.head?
  match c with
  | '\x7b' => s.opens .openMap c
  | '\x7d' => s.closeMap
  | '.' => s.documentEnd
  | '<' => s.merge
  | '-' => s.dash next
  | '[' => s.opens .openList c
  | ']' => s.closeList
  | ',' => if s.inFlow then .moved (s.mark .comma c) else .text
  | ':' => s.colon next
  | '|' => s.blockHead .literal
  | '>' => s.blockHead .folded
  | '!' => s.tag
  | '%' => s.directive
  | '?' => s.question next
  | '&' => s.name .anchor c
  | '*' => s.name .alias c
  | '#' => s.comment
  | '\'' => s.quote c
  | '"' => s.quote c
  | '\r' => .moved (s.lineEnd c)
  | '\n' => .moved (s.lineEnd c)
  | ' ' => s.space
  | '@' => s.reserved
  | '\x60' => s.reserved
  | '\t' => s.tab
  | _ => .text

/-! ## Block scalars -/

/-- A character of a block scalar. -/
def blockStep (s : Lexer) (b : Block) (c : Char) : Option Lexer :=
  let s := s.note c
  let (s, c) := match c, s.rest with
    | '\r', '\r' :: '\n' :: rest => ({ s with rest := '\n' :: rest }, '\n')
    | _, _ => (s, c)
  let column := s.position.column
  if s.rest.tail.isEmpty then
    let (b, draft) := if s.fresh && c == ' ' then b.addSpace column s.draft else (b, s.draft.add c)
    let b := b.atColumn column
    if b.fits then
      let text := b.chomp draft.text
      let s := { s with draft }.emit (.plain (.text (encode text))) text
      some (s.clear.move 1 1)
    else none
  else if isBreak c then
    let b := b.endLine (column - 1)
    let s := { s with draft := s.draft.add c, block := some b }.nextLine
    if startsSeparator s.rest then
      let text := b.chomp s.draft.text
      some (s.emit (.plain (.text (encode text))) text).clear
    else some s
  else if s.fresh && c == ' ' then
    let (b, draft) := b.addSpace column s.draft
    some ({ s with draft, block := some b }.move 1 1)
  else if c = '\t' ∧ b.isIndent column ∧ s.fresh then none
  else if c = '\t' ∧ !b.isIndent column then
    some ({ s with draft := s.draft.addSolid c }.move 1 1)
  else if b.first = 0 ∧ column < b.blank then none
  else
    let b := b.atColumn column
    if b.fits then
      let (b, draft) := b.fold column s.draft
      some ({ s with
        draft := draft.addSolid c
        block := some b
        keyColumn := if b.first ≤ 1 then s.keyColumn else b.first - 1 }.move 1 1)
    else none

/-- Leaves a block scalar at a line outside of it.  An empty one still has its token, and
it must not stand at the start of a line. -/
def leaveBlock (s : Lexer) : Option Lexer :=
  match s.tokens with
  | [] => some { s with block := none }
  | t :: _ =>
    if t.position.column = 1 then none
    else
      match t.kind with
      | .plain (.text _) => some { s with block := none }
      | _ => some { s.emit (.plain (.text [])) [] with block := none }

/-! ## Whole documents -/

/-- A character outside block scalars. -/
def plainStep (s : Lexer) (c : Char) : Option Lexer :=
  match s.reading c with
  | .malformed => none
  | .moved s => some s
  | .text => some ({ s with draft := (s.draft.add c).note c }.move 1 1)

/-- Reads one character. -/
def step (s : Lexer) (c : Char) : Option Lexer :=
  let s := s.measure c
  let s := if s.margin = .outside then s.flush else s
  match s.block with
  | none => s.plainStep c
  | some b =>
    if s.margin = .outside then do
      let s ← s.leaveBlock
      s.plainStep c
    else s.blockStep b c

/-- Reads to the end, in at most `fuel` steps. -/
def run : (fuel : Nat) → Lexer → Option Lexer
  | 0, _ => none
  | fuel + 1, s =>
    match s.rest with
    | [] => some s.flush
    | c :: _ =>
      match s.step c with
      | none => none
      | some s => run fuel s

end Lexer

/-- The tokens of a document, without its comments.  Every step but the end of a name
moves on. -/
def tokens? (cs : List Char) : Option (List Token) :=
  (Lexer.run (2 * cs.length + 2) (Lexer.ofChars cs)).map fun s =>
    s.tokens.reverse.filter (·.kind != .comment)

end Argot.Document
