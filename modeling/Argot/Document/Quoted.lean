import Argot.Document.Token

set_option autoImplicit false

/-!
# Quoted scalars

A quoted scalar may run over several lines.  A line break in it is read as a space, and
blanks around the break do not count; a break after an empty line is read as a break.  In
single quotes, a quote is written twice.  Double quotes have escapes, one of which hides
a line break.

In double quotes a tab is as wide as two characters, unless the closing quote follows it.
The width of a scalar decides where reading goes on, so as many characters after the
closing quote are passed over as there are wide tabs.

Normative source: SPEC_FULL §12 (vocabulary files).
-/

namespace Argot.Document.Quoted

/-- Reading a quoted scalar. -/
structure Progress where
  /-- the text so far, latest character first -/
  value : List Char
  position : Position
  /-- whether nothing but blanks has been read of the line at hand -/
  fresh : Bool
  /-- by how much the scalar is wider than it is long -/
  excess : Nat
  deriving Repr, Inhabited

namespace Progress

/-- One more character of text. -/
def push (p : Progress) (c : Char) (width : Nat) : Progress :=
  { p with value := c :: p.value, position := p.position.right width, fresh := false }

/-- A tab that is two characters wide. -/
def pushWideTab (p : Progress) : Progress := { p.push '\t' 2 with excess := p.excess + 1 }

/-- A line break: spaces in front of it go, and it stands for a space, or for itself
after an empty line. -/
def breakLine (p : Progress) : Progress :=
  let value := p.value.dropWhile (· == ' ')
  { p with
    value := (if p.fresh then '\n' else ' ') :: value
    position := p.position.nextLine
    fresh := true }

/-- A line break that does not count, after which the text goes on at `position`. -/
def joinLine (p : Progress) (position : Position) : Progress :=
  { p with position, fresh := true }

/-- A blank at the start of a line.  A tab must not stand where lines are indented, up to
`margin`. -/
def skipBlank (margin : Nat) (p : Progress) (c : Char) : Option Progress :=
  if c = '\t' ∧ p.position.column ≤ margin then none
  else some { p with position := p.position.right 1 }

end Progress

/-- A scalar in single quotes, after the first one, and what follows it. -/
def single (margin : Nat) (p : Progress) : List Char → Option (Progress × List Char)
  | [] => none
  | c :: t =>
    if isBreak c then
      if startsSeparator t then none else single margin p.breakLine t
    else if p.fresh && isBlank c then
      match p.skipBlank margin c with
      | none => none
      | some p => single margin p t
    else if c = '\'' then
      match t with
      | '\'' :: t' => single margin { p.push c 2 with fresh := p.fresh } t'
      | _ => some ({ p with position := p.position.right 1 }, t)
    else single margin (p.push c 1) t

/-! ## Escapes -/

/-- The character that a one-letter escape stands for. -/
def letterEscape? (c : Char) : Option Char :=
  let table : List (Char × Nat) :=
    [('0', 0x00), ('a', 0x07), ('b', 0x08), ('t', 0x09), ('n', 0x0A), ('v', 0x0B), ('f', 0x0C),
      ('r', 0x0D), ('e', 0x1B), (' ', 0x20), ('"', 0x22), ('/', 0x2F), ('\\', 0x5C), ('\t', 0x09),
      ('N', 0x85), ('_', 0xA0), ('L', 0x2028), ('P', 0x2029)]
  (table.find? (·.1 = c)).map fun e => Char.ofNat e.2

/-- How many digits follow the letter of a numeric escape. -/
def escapeWidth? (c : Char) : Option Nat :=
  if c = 'x' then some 2 else if c = 'u' then some 4 else if c = 'U' then some 8 else none

/-- The value of a digit.  A character that is none counts by its distance from the digit
zero. -/
def digitValue (c : Char) : Int :=
  if 'A' ≤ c ∧ c ≤ 'F' then (c.toNat : Int) - 55
  else if 'a' ≤ c ∧ c ≤ 'f' then (c.toNat : Int) - 87
  else (c.toNat : Int) - 48

/-- The number that hexadecimal digits spell. -/
def codeOf (digits : List Char) : Int := digits.foldl (fun n c => n * 16 + digitValue c) 0

/-- The character with a code, of which the lowest 32 bits count, or the replacement
character if there is none. -/
def characterOf (code : Int) : Char :=
  match Int.bmod code 0x100000000 with
  | .ofNat n => if n.isValidChar then Char.ofNat n else '�'
  | .negSucc _ => '�'

/-- The character after the letter of a numeric escape, and the number of characters that
spell it.  Half of a pair has to be followed by the other half.  Without enough
characters, the letter stands for itself. -/
def numericEscape? (letter : Char) (width : Nat) (t : List Char) : Option (Char × Nat) :=
  if t.length < width then some (letter, 0)
  else
    let code := codeOf (t.take width)
    if letter = 'u' ∧ 0xD800 ≤ code ∧ code ≤ 0xDBFF then
      let low := codeOf ((t.drop 6).take 4)
      if t.length < 10 ∨ (t.drop 4).take 2 ≠ "\\u".toList ∨ low < 0xDC00 ∨ 0xDFFF < low then none
      else some (characterOf ((code - 0xD800) * 0x400 + (low - 0xDC00) + 0x10000), 10)
    else some (characterOf code, width)

/-- The character that an escape stands for, and how many characters spell it after the
backslash. -/
def escape? : List Char → Option (Char × Nat)
  | [] => some ('\\', 0)
  | c :: t =>
    match letterEscape? c, escapeWidth? c with
    | some e, _ => some (e, 1)
    | none, some width => (numericEscape? c width t).map fun (e, n) => (e, n + 1)
    | none, none => none

/-- A scalar in double quotes, after the first one, and what follows it.  The next `skip`
characters have been read already.  A tab at the end of a line goes, with the blanks after
it. -/
def double (margin : Nat) (skip : Nat) (p : Progress) : List Char → Option (Progress × List Char)
  | [] => none
  | c :: t =>
    match skip with
    | skip + 1 => double margin skip p t
    | 0 =>
      if isBreak c then
        if startsSeparator t then none else double margin 0 p.breakLine t
      else if p.fresh && isBlank c then
        match p.skipBlank margin c with
        | none => none
        | some p => double margin 0 p t
      else if c = '\\' then
        match t with
        | '\n' :: _ => double margin 1 (p.joinLine p.position.nextLine) t
        | '\r' :: '\n' :: _ => double margin 2 (p.joinLine (p.position.nextLine.right 2)) t
        | '\r' :: _ => double margin 1 (p.joinLine (p.position.nextLine.right 1)) t
        | _ =>
          match escape? t with
          | none => none
          | some (e, width) => double margin width (p.push e (width + 1)) t
      else if c = '\t' then
        let gap := (t.takeWhile isBlank).length
        if (t.drop gap).head?.all isBreak then
          double margin gap { p with position := p.position.right (gap + 1) } t
        else if t.head? = some '"' then double margin 0 (p.push c 1) t
        else double margin 0 p.pushWideTab t
      else if c = '"' then some ({ p with position := p.position.right 1 }, t)
      else double margin 0 (p.push c 1) t

/-- A quoted scalar that starts at a place with the given quote. -/
def read (margin : Nat) (quote : Char) (start : Position) (t : List Char) :
    Option (Progress × List Char) :=
  let p : Progress := ⟨[], start.right 1, false, 0⟩
  if quote = '"' then double margin 0 p t else single margin p t

end Argot.Document.Quoted
