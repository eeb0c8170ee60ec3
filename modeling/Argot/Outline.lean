import Argot.Number.Format
import Argot.Text.Quoted
import Argot.Value

set_option autoImplicit false

/-!
# Outlines

The structure of a form, spelled out part by part, each part on a line of its own and
indented under the one it belongs to.  Only what can be read from a text has parts to be
shown.

Normative source: SPEC_FULL §13 (prompt: `.ast`).
-/

namespace Argot

/-- `depth` tabs. -/
def indentation (depth : Nat) : Text := List.replicate depth 0x09

/-- A node that has one field, whose outline is `field`. -/
def outlineNode (kind name : Text) (depth : Nat) (field : Text) : Text :=
  let type := Text.ofString "nylisp." ++ kind
  Text.ofString "(*" ++ type ++ Text.ofString ")(&" ++ type ++ Text.ofString "\x7b\n" ++
    indentation (depth + 1) ++ name ++ Text.ofString ": " ++ field ++ Text.ofString ",\n" ++
    indentation depth ++ Text.ofString "\x7d)"

/-- A field of a simple type. -/
def outlineAtom (type literal : Text) : Text :=
  Text.ofString "(" ++ type ++ Text.ofString ")(" ++ literal ++ Text.ofString ")"

mutual

/-- The outline of a form that stands `depth` deep. -/
def Value.outline (depth : Nat) : Value → Text
  | .number x => outlineNode "SexpNumber" "Val" depth (outlineAtom "float64" x.text)
  | .boolean b =>
    outlineNode "SexpBool" "Val" depth (outlineAtom "bool" (if b then "true" else "false"))
  | .symbol name => outlineNode "SexpSymbol" "Name" depth (outlineAtom "string" name.quoted)
  | .string s => outlineNode "SexpStr" "S" depth (outlineAtom "string" s.quoted)
  | .quote x => outlineNode "SexpQuote" "Val" depth (x.outline (depth + 1))
  | .list [] =>
    outlineNode "SexpList" "Val" depth "([]nylisp.Sexp)([]nylisp.Sexp\x7b\x7d)"
  | .list (x :: xs) =>
    outlineNode "SexpList" "Val" depth
      (Text.ofString "([]nylisp.Sexp)([]nylisp.Sexp\x7b\n" ++
        Value.outlineItems (depth + 2) (x :: xs) ++ indentation (depth + 1) ++
        Text.ofString "\x7d)")
  | x => Text.ofString "(" ++ x.typeName ++ Text.ofString ")"

/-- The outlines of the items of a list. -/
def Value.outlineItems (depth : Nat) : List Value → Text
  | [] => []
  | x :: xs =>
    indentation depth ++ x.outline depth ++ Text.ofString ",\n" ++ Value.outlineItems depth xs

end

end Argot
