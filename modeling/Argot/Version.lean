import Argot.Text.Basic

set_option autoImplicit false

/-!
# Versions

How a build names itself.

Normative source: SPEC_FULL §11.1 (configuration: the banner).
-/

namespace Argot

/-- The tag and the commit that a build was made from. -/
structure Build where
  tag : Text
  commit : Text
  deriving DecidableEq, Repr, Inhabited

/-- A build without tag and commit. -/
def Build.development : Build := ⟨[], []⟩

/-- Tag and commit with a slash between them, or `dev` when neither is known. -/
def Build.version (b : Build) : Text :=
  if b.tag.isEmpty && b.commit.isEmpty then "dev" else b.tag ++ Text.ofString "/" ++ b.commit

end Argot
