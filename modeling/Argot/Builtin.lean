import Argot.Failure
import Argot.Generator
import Argot.NameMap

set_option autoImplicit false

/-!
# Builtins

What the primitives do with evaluated arguments.  Every primitive first checks how many
arguments it got, then their types, then their values, and fails with the first fault.
The name under which a builtin was registered appears in its failures only.

Normative source: SPEC_FULL §4.3 (builtin registry), §9 (short argument lists) and §14
(`random`, `=`).
-/

namespace Argot

/-- The functions that the embedding program supplies, by slot. -/
abbrev Host : Type := Nat → (name : Text) → (args : List Value) → Except Failure Value

namespace Builtin

/-! ## Arguments -/

/-- All arguments as numbers. -/
def numbers (name : Text) : List Value → Except Failure (List Binary64)
  | [] => .ok []
  | .number x :: rest => return x :: (← numbers name rest)
  | x :: _ => .error (.notNumber name x)

/-- All arguments as truth values. -/
def booleans (name : Text) : List Value → Except Failure (List Bool)
  | [] => .ok []
  | .boolean b :: rest => return b :: (← booleans name rest)
  | x :: _ => .error (.notBoolean name x)

/-- The only argument, as a list. -/
def onlyList (name : Text) : List Value → Except Failure (List Value)
  | [.list items] => .ok items
  | [x] => .error (.notList name x)
  | args => .error (.notOneArgument name args.length)

/-- Fails on an empty argument list. -/
def someArguments (name : Text) (args : List Value) : Except Failure Unit :=
  if args.isEmpty then .error (.noArguments name) else .ok ()

/-! ## What the primitives compute -/

/-- Combines the arguments from left to right, starting with the first one. -/
def numeric (op : NumericOp) (name : Text) (args : List Value) : Except Failure Value := do
  someArguments name args
  match ← numbers name args with
  | [] => .error (.noArguments name)
  | x :: rest => return .number (rest.foldl op.apply x)

/-- Whether every argument is equal to the first one. -/
def equal (name : Text) : List Value → Except Failure Value
  | [] => .error (.noArguments name)
  | x :: rest => .ok (.boolean (rest.all x.equal))

/-- Whether every number stands in the relation to the next one. -/
def monotone (lt : Binary64 → Binary64 → Bool) : List Binary64 → Bool
  | x :: y :: rest => lt x y && monotone lt (y :: rest)
  | _ => true

/-- Whether the arguments are in strict order. -/
def ordered (lt : Binary64 → Binary64 → Bool) (name : Text) (args : List Value) :
    Except Failure Value := do
  someArguments name args
  return .boolean (monotone lt (← numbers name args))

/-- The last of some truth values, unless one before it is the `decisive` one. -/
def lastUnless (decisive : Bool) : List Bool → Bool
  | [] => !decisive
  | [b] => b
  | b :: c :: rest => if b = decisive then decisive else lastUnless decisive (c :: rest)

/-- The last argument, unless one before it is false. -/
def conjunction (name : Text) (args : List Value) : Except Failure Value := do
  someArguments name args
  return .boolean (lastUnless false (← booleans name args))

/-- The last argument, unless one before it is true. -/
def disjunction (name : Text) (args : List Value) : Except Failure Value := do
  someArguments name args
  return .boolean (lastUnless true (← booleans name args))

/-- The list of the negated arguments. -/
def negation (name : Text) (args : List Value) : Except Failure Value := do
  return .list ((← booleans name args).map fun b => .boolean !b)

/-- The first item of a list. -/
def first (name : Text) (args : List Value) : Except Failure Value := do
  match ← onlyList name args with
  | [] => .error (.emptyList name)
  | x :: _ => return x

/-- A list without its first item. -/
def rest (name : Text) (args : List Value) : Except Failure Value := do
  return .list (← onlyList name args).tail

/-- The bound of a random number: the integer part of a number from one to below
`2 ^ 63`. -/
def bound (name : Text) : List Value → Except Failure Nat
  | [.number n] =>
    if n.isNaN || n.less (Binary64.ofNat 1) || !n.less (Binary64.ofNat 0x8000000000000000) then
      .error (.boundOutOfRange name (.number n))
    else .ok n.truncate
  | [x] => .error (.boundNotNumber name x)
  | args => .error (.notOneArgument name args.length)

/-- A whole number from zero to below the bound. -/
def random (name : Text) (args : List Value) (g : Generator) :
    Except Failure Value × Generator :=
  match bound name args with
  | .error e => (.error e, g)
  | .ok n =>
    let (k, g) := g.draw n
    (.ok (.number (Binary64.ofNat k)), g)

end Builtin

/-- Runs a primitive under a name.  Only random numbers advance the generator. -/
def Primitive.apply (host : Host) (name : Text) (args : List Value) (g : Generator) :
    Primitive → Except Failure Value × Generator
  | .numeric op => (Builtin.numeric op name args, g)
  | .equal => (Builtin.equal name args, g)
  | .increasing => (Builtin.ordered Binary64.less name args, g)
  | .decreasing => (Builtin.ordered (fun x y => y.less x) name args, g)
  | .conjunction => (Builtin.conjunction name args, g)
  | .disjunction => (Builtin.disjunction name args, g)
  | .negation => (Builtin.negation name args, g)
  | .first => (Builtin.first name args, g)
  | .rest => (Builtin.rest name args, g)
  | .random => Builtin.random name args g
  | .host slot => (host slot name args, g)

/-- The comparison that a sign names; every sign but `<` asks for decreasing order. -/
def Primitive.comparison (name : Text) : Primitive :=
  if name = Text.ofString "<" then .increasing else .decreasing

/-! ## Registration -/

/-- The builtins of the language under the names that a vocabulary gives them.  Should two
of them have the same name, the later one has it. -/
def Vocabulary.primitives (v : Vocabulary) : NameMap Primitive :=
  NameMap.ofList [
    ("+", .numeric .add),
    ("-", .numeric .sub),
    ("*", .numeric .mul),
    ("/", .numeric .div),
    ("%", .numeric .mod),
    ("=", .equal),
    ("<", .increasing),
    (">", .decreasing),
    (v.andName, .conjunction),
    (v.orName, .disjunction),
    (v.notName, .negation),
    (v.carName, .first),
    (v.cdrName, .rest),
    (v.randomName, .random)]

/-- The bindings that make primitives callable by their names. -/
def registered (registration : Nat) (primitives : NameMap Primitive) : NameMap Value :=
  primitives.map fun name op => .builtin ⟨registration, name, op⟩

end Argot
