import Argot.Document
import Argot.Vocabulary.Validity

set_option autoImplicit false

/-!
# Vocabularies from documents

A document names the tokens that differ from those of the standard vocabulary, by their
roles.  Keys that name no role are passed over, and a role whose value is null keeps its
token.  A document with nothing in it leaves every role without a token.

Normative source: SPEC_FULL §11.1 (configuration: `-vocab`) and §13 (reserved vocabulary).
-/

namespace Argot

/-- Why a document gives no vocabulary. -/
inductive VocabularyDocumentError where
  /-- the document cannot be read, or gives a role something other than a scalar -/
  | malformed
  /-- the vocabulary is not valid -/
  | invalid (e : VocabularyError)
  deriving DecidableEq, Repr, Inhabited

namespace Vocabulary

/-- Gives the roles that the entries name their tokens. -/
def override (v : Vocabulary) : List (Text × Document.Node) → Option Vocabulary
  | [] => some v
  | (key, node) :: rest =>
    match Role.ofName? key with
    | none => v.override rest
    | some role =>
      match node with
      | .nothing => v.override rest
      | .scalar s =>
        match s.text? with
        | none => v.override rest
        | some token => (v.set role token).override rest
      | .list _ => none
      | .map _ => none

/-- The vocabulary of a document, which need not be valid. -/
def ofDocument? : Document → Option Vocabulary
  | .absent => some (Vocabulary.ofTokens fun _ => [])
  | .mapping entries => Vocabulary.pictures.override entries

/-- The valid vocabulary that a text describes. -/
def parseDocument (t : Text) : Except VocabularyDocumentError Vocabulary :=
  match (Document.parse? t).bind ofDocument? with
  | none => .error .malformed
  | some v =>
    match v.validate with
    | .ok () => .ok v
    | .error e => .error (.invalid e)

end Vocabulary
end Argot
