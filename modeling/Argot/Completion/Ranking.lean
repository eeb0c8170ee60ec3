import Argot.Text.Letter
import Argot.Text.Rune

set_option autoImplicit false

/-!
# Ranking candidates

A candidate matches a pattern if the characters of the pattern occur in it in order, in
either case.  Of several places at which a character can be matched the best one counts:
at the start of the candidate, at a capital after a small letter, after a separator, or
next to the previous match.  What is matched late and what is not matched at all lowers
the score.

Normative source: SPEC_FULL §12 (completion ranking).
-/

namespace Argot.Ranking

/-- Points for a match at the start of the candidate. -/
def startBonus : Int := 10

/-- Points for a capital after a small letter, and for a match after a separator. -/
def boundaryBonus : Int := 20

/-- Points for a match right after the previous one, on top of twice what earlier such
matches brought. -/
def adjacentBonus : Int := 5

/-- The price of each byte before the first match, and the highest total. -/
def leadingPenalty (place : Nat) : Int := max (-5 * (place : Int)) (-15)

/-- Whether a code point separates words. -/
def isSeparator (n : Nat) : Bool :=
  n == 0x2F || n == 0x2D || n == 0x5F || n == 0x20 || n == 0x2E || n == 0x5C

/-- How far the matching of a candidate has come. -/
structure Progress where
  /-- the characters of the pattern that wait for their match -/
  pattern : List Nat
  /-- the best score of a match for the first of them -/
  best : Int
  /-- the place of the best match, or of the last one -/
  place : Option Nat
  /-- what adjacent matches have brought -/
  adjacent : Int
  /-- the score of the matches so far -/
  total : Int
  /-- the places of the matches, the last one first -/
  matched : List Nat
  /-- the previous character of the candidate -/
  last : Nat
  /-- its place -/
  lastPlace : Nat
  deriving Repr, Inhabited

/-- Nothing of the candidate has been looked at. -/
def Progress.start (pattern : List Nat) : Progress := ⟨pattern, -1, none, 0, 0, [], 0, 0⟩

/-- Takes a character that fits the pattern into account. -/
def Progress.consider (s : Progress) (c place : Nat) : Progress :=
  let first := if place = 0 then startBonus else 0
  let capital := if Letter.isLower s.last && Letter.isUpper c then boundaryBonus else 0
  let separated := if place ≠ 0 ∧ isSeparator s.last then boundaryBonus else 0
  let next := if s.matched.head? = some s.lastPlace then s.adjacent * 2 + adjacentBonus else 0
  let score := first + capital + separated + next
  let s := { s with adjacent := s.adjacent + next }
  if s.best < score then { s with best := score, place := some place } else s

/-- Settles on the best match when the next character of the pattern comes up, or when
the candidate ends. -/
def Progress.settle (s : Progress) (next : Nat) : Progress :=
  let upcoming := (s.pattern.drop 1).headD 0
  if Letter.sameFold upcoming next || next == 0 then
    match s.place with
    | none => s
    | some place =>
      let lead := if s.matched.isEmpty then leadingPenalty place else 0
      { s with
        pattern := s.pattern.drop 1
        best := -1
        total := s.total + s.best + lead
        matched := place :: s.matched }
  else s

/-- Looks at the rest of a candidate from a place on. -/
def Progress.scan : Progress → (place : Nat) → List Rune → Progress
  | s, _, [] => s
  | s, place, r :: rest =>
    let c := r.codePoint
    let fits := s.pattern.head?.any (Letter.sameFold c)
    let s := if fits then s.consider c place else s
    let s := s.settle ((rest.head?.map Rune.codePoint).getD 0)
    Progress.scan { s with last := c, lastPlace := place } (place + r.encode.length) rest

/-- The score of a candidate, if it matches. -/
def score? (pattern candidate : Text) : Option Int :=
  let wanted := pattern.runes.map Rune.codePoint
  let s := Progress.scan (.start wanted) 0 candidate.runes
  if s.matched.length = wanted.length then
    some (s.total + s.matched.length - candidate.length)
  else none

/-- Puts a candidate in front of all that score no more than it does. -/
def place (score : Int) (candidate : Text) : List (Int × Text) → List (Int × Text)
  | [] => [(score, candidate)]
  | other :: rest =>
    if other.1 ≤ score then (score, candidate) :: other :: rest
    else other :: place score candidate rest

/-- The candidates that match, the best first; of equals the last one comes first. -/
def rank (pattern : Text) (candidates : List Text) : List Text :=
  let ranked := candidates.foldl (fun ranked c =>
    match score? pattern c with
    | some score => place score c ranked
    | none => ranked) []
  ranked.map Prod.snd

end Argot.Ranking
