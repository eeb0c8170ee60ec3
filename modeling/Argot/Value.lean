import Argot.Text.Basic
import Argot.Number.Arithmetic

set_option autoImplicit false

/-!
# Values

Values are both program text and what programs compute.  A builtin is known by the
primitive it runs, the name it was registered under and the registration it came from:
two builtins are the same only if all three agree.  A closure may remember the scope it
was made in, by the number of that scope in the store.

Normative source: SPEC_FULL §3 (expressions).
-/

namespace Argot

/-- What a builtin does.  A host slot stands for a function that the embedding program
supplies. -/
inductive Primitive where
  | numeric (op : NumericOp)
  | equal
  | increasing
  | decreasing
  | conjunction
  | disjunction
  | negation
  | first
  | rest
  | random
  | host (slot : Nat)
  deriving DecidableEq, Repr, Inhabited

/-- A registered primitive. -/
structure Builtin where
  registration : Nat
  name : Text
  op : Primitive
  deriving DecidableEq, Repr, Inhabited

/-- Expressions and their values. -/
inductive Value where
  | nil
  | quote (form : Value)
  | symbol (name : Text)
  | number (x : Binary64)
  | boolean (b : Bool)
  | string (s : Text)
  | list (items : List Value)
  | builtin (b : Builtin)
  | closure (params body : Value) (home : Option Nat)
  | scopedLet (bindings body : Value)
  deriving Repr, Inhabited

namespace Value

/-- The name of a value's type. -/
def typeName : Value → Text
  | .nil => "unknown"
  | .quote _ => "quote"
  | .symbol _ => "symbol"
  | .number _ => "number"
  | .boolean _ => "boolean"
  | .string _ => "string"
  | .list _ => "list"
  | .builtin _ => "builtin"
  | .closure _ _ _ => "closure"
  | .scopedLet _ _ => "scoped-let"

mutual

/-- Structural equality.  The scope that a closure remembers does not count, numbers are
compared numerically, and nil is equal to nothing, not even to itself. -/
def equal : Value → Value → Bool
  | .quote x, .quote y => equal x y
  | .symbol m, .symbol n => m == n
  | .number x, .number y => x.equals y
  | .boolean b, .boolean c => b == c
  | .string s, .string t => s == t
  | .list xs, .list ys => equalAll xs ys
  | .builtin b, .builtin c => b == c
  | .closure p b _, .closure q c _ => equal p q && equal b c
  | .scopedLet p b, .scopedLet q c => equal p q && equal b c
  | _, _ => false

/-- Equality of lists, item by item. -/
def equalAll : List Value → List Value → Bool
  | [], [] => true
  | x :: xs, y :: ys => equal x y && equalAll xs ys
  | _, _ => false

end

mutual

/-- A copy of the list and quote structure, down to the leaves. -/
def copy : Value → Value
  | .list xs => .list (copyAll xs)
  | .quote x => .quote (copy x)
  | x => x

/-- A copy of every item. -/
def copyAll : List Value → List Value
  | [] => []
  | x :: xs => copy x :: copyAll xs

end

mutual

/-- Values are never changed in place, so a copy is the value itself. -/
@[simp] theorem copy_eq : (x : Value) → x.copy = x
  | .list xs => by rw [copy, copyAll_eq]
  | .quote x => by rw [copy, copy_eq x]
  | .nil | .symbol _ | .number _ | .boolean _ | .string _ | .builtin _ | .closure _ _ _
  | .scopedLet _ _ => rfl

@[simp] theorem copyAll_eq : (xs : List Value) → copyAll xs = xs
  | [] => rfl
  | x :: xs => by rw [copyAll, copy_eq x, copyAll_eq xs]

end

end Value
end Argot
