import Argot.Value
import Argot.Vocabulary.Basic
import Argot.Text.Quoted
import Argot.Number.Format

set_option autoImplicit false

/-!
# Printing values

A value is written as a program would spell it in a given vocabulary, in front of a text
that follows.  Delimiters are written without whitespace around them, and the items of a
list are a space apart.

Normative source: SPEC_FULL §13 (printer).
-/

namespace Argot.Value

mutual

/-- The text of a value followed by `tail`. -/
def write (v : Vocabulary) : Value → (tail : Text) → Text
  | .nil, tail => Text.ofString "<nil>" ++ tail
  | .quote x, tail => v.quoteMark ++ write v x tail
  | .symbol name, tail => name ++ tail
  | .number x, tail => x.text ++ tail
  | .boolean b, tail => (if b then v.trueWord else v.falseWord) ++ tail
  | .string s, tail => s.quoted ++ tail
  | .list xs, tail => v.listOpen ++ writeItems v xs (v.listClose ++ tail)
  | .builtin b, tail => Text.ofString "<builtin " ++ b.name ++ Text.ofString ">" ++ tail
  | .closure params body _, tail =>
    v.listOpen ++ v.closureForm ++ Text.space ++
      write v params (Text.space ++ write v body (v.listClose ++ tail))
  | .scopedLet bindings body, tail =>
    v.listOpen ++ v.letForm ++ Text.space ++
      write v bindings (Text.space ++ write v body (v.listClose ++ tail))

/-- The texts of the items, a space apart, followed by `tail`. -/
def writeItems (v : Vocabulary) : List Value → (tail : Text) → Text
  | [], tail => tail
  | [x], tail => write v x tail
  | x :: y :: rest, tail => write v x (Text.space ++ writeItems v (y :: rest) tail)

end

/-- The text of a value in a vocabulary. -/
def print (v : Vocabulary) (x : Value) : Text := x.write v []

end Argot.Value
