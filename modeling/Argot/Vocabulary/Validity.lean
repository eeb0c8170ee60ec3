import Argot.Vocabulary.Basic
import Argot.Text.Quoted
import Argot.Text.Space
import Argot.Number.Numeral

set_option autoImplicit false

/-!
# Valid vocabularies

A vocabulary is valid when its tokens can be told apart, from each other and from
numbers, after a program has been cut into words: no token is empty, holds whitespace,
spells a number, or is used twice, and no delimiter stands inside another token.
`Vocabulary.validate` reports the first fault.

Normative source: SPEC_FULL §13 (reserved vocabulary).
-/

namespace Argot

/-- What is wrong with a vocabulary. -/
inductive VocabularyError where
  | emptyToken (role : Text)
  | whitespace (role token : Text)
  | numeral (role token : Text)
  | shared (first second token : Text)
  | delimiterInside (role token delimiter : Text)
  deriving DecidableEq, Repr

namespace VocabularyError

/-- What the error says. -/
def message : VocabularyError → Text
  | .emptyToken role => Text.ofString "vocabulary: " ++ role ++ Text.ofString " token is empty"
  | .whitespace role token =>
    Text.ofString "vocabulary: " ++ role ++ Text.ofString " token " ++ token.quoted ++
      Text.ofString " contains whitespace"
  | .numeral role token =>
    Text.ofString "vocabulary: " ++ role ++ Text.ofString " token " ++ token.quoted ++
      Text.ofString " reads as a number"
  | .shared first second token =>
    Text.ofString "vocabulary: " ++ first ++ Text.ofString " and " ++ second ++
      Text.ofString " share the token " ++ token.quoted
  | .delimiterInside role token delimiter =>
    Text.ofString "vocabulary: " ++ role ++ Text.ofString " token " ++ token.quoted ++
      Text.ofString " contains the delimiter " ++ delimiter.quoted

end VocabularyError

namespace Vocabulary

/-- A token together with the name of what it is for. -/
structure NamedToken where
  role : Text
  token : Text
  deriving DecidableEq, Repr

/-- The reserved tokens and then the arithmetic names, which are their own roles. -/
def named (v : Vocabulary) : List NamedToken :=
  Role.all.map (fun r => ⟨r.name, v.token r⟩) ++ arithmetic.map fun name => ⟨name, name⟩

/-- Whether a token spells a number that can be represented. -/
def isNumeral (token : Text) : Bool := (Numeral.parse? token).any fun n => !n.overflows

/-- The fault of one token, given the tokens before it. -/
def tokenFault? (seen : List NamedToken) (t : NamedToken) : Option VocabularyError :=
  if t.token.isEmpty then some (.emptyToken t.role)
  else if t.token.hasSpace then some (.whitespace t.role t.token)
  else if isNumeral t.token then some (.numeral t.role t.token)
  else (seen.find? (·.token == t.token)).map fun first => .shared first.role t.role t.token

/-- The first fault of a list of tokens, each looked at after those before it. -/
def tokensFault? : (seen : List NamedToken) → List NamedToken → Option VocabularyError
  | _, [] => none
  | seen, t :: rest => (tokenFault? seen t).or (tokensFault? (seen ++ [t]) rest)

/-- The first token in which one of the delimiters stands, delimiter by delimiter. -/
def delimiterFault? (delimiters : List Text) (tokens : List NamedToken) : Option VocabularyError :=
  delimiters.findSome? fun d => tokens.findSome? fun t =>
    if t.token ≠ d ∧ Text.hasInfix d t.token = true then some (.delimiterInside t.role t.token d)
    else none

/-- The first fault of a vocabulary. -/
def fault? (v : Vocabulary) : Option VocabularyError :=
  (tokensFault? [] v.named).or (delimiterFault? v.delimiters v.named)

/-- Whether the vocabulary has no fault. -/
def IsValid (v : Vocabulary) : Prop := v.fault? = none

instance (v : Vocabulary) : Decidable v.IsValid := inferInstanceAs (Decidable (_ = _))

/-- Accepts exactly the valid vocabularies. -/
def validate (v : Vocabulary) : Except VocabularyError Unit :=
  match v.fault? with
  | none => .ok ()
  | some e => .error e

theorem validate_eq_ok_iff (v : Vocabulary) : v.validate = .ok () ↔ v.IsValid := by
  unfold validate IsValid
  split <;> simp_all

end Vocabulary
end Argot
