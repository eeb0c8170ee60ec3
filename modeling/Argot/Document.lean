import Argot.Document.Node

set_option autoImplicit false

/-!
# Documents

A text in YAML that gives values to names.  It may hold several documents; the first that
says anything counts, and it has to be a mapping.  All of them have to be well formed.

Normative source: SPEC_FULL §12 (vocabulary files).
-/

namespace Argot

/-- What a text says. -/
inductive Document where
  /-- nothing at all -/
  | absent
  /-- values by their names, each name once -/
  | mapping (entries : List (Text × Document.Node))
  deriving Inhabited, Repr

namespace Document

/-- The fields of a mapping by name, after those in `before`, which are listed latest
first.  A mapping with a key that is not text says nothing. -/
def entries? (before : List (Text × Node)) :
    List (Option Text × Node) → Option (List (Text × Node))
  | [] => some before.reverse
  | (none, _) :: _ => some []
  | (some name, n) :: rest =>
    if before.any (·.1 == name) then none else entries? ((name, n) :: before) rest

/-- What a document says, if it says anything. -/
def content? : Option Node → Option Node
  | some .nothing => none
  | body => body

/-- Reads a text. -/
def parse? (t : Text) : Option Document := do
  let tokens ← tokens? (characters t)
  let items ← items? tokens
  let documents ← documents? [] items
  let bodies ← documents.mapM body?
  match bodies.filterMap content? with
  | [] => some .absent
  | .map fields :: _ => (entries? [] fields).map .mapping
  | _ => none

end Document
end Argot
