import Argot.Report
import Argot.Printer

set_option autoImplicit false

/-!
# Failures

Why the evaluation of an expression fails.  A failure holds the values it is about; they
are put into words in the vocabulary of the interpreter that reports it.

Normative source: SPEC_FULL §7 (error handling) and §11.2 (kinds and messages).
-/

namespace Argot

/-- Why an evaluation fails.  `name` is the token of the form or builtin that fails. -/
inductive Failure where
  /-- nil is no expression -/
  | nilExpression
  /-- a value that no program can spell -/
  | unsupported (x : Value)
  /-- a name that no scope on the chain binds -/
  | unboundSymbol (name : Text)
  /-- the head of a call is not a function -/
  | notCallable (head : Value)
  /-- a closure called with the wrong number of arguments -/
  | closureArity (params args : Nat)
  /-- the parameters of a closure are not a list -/
  | paramsNotList (params : Value)
  /-- a parameter of a closure is not a symbol -/
  | paramNotSymbol (params : Value)
  /-- a special form with the wrong number of arguments -/
  | formArity (name : Text) (wanted args : Nat)
  /-- the condition of a choice is not a truth value -/
  | conditionNotBoolean (name : Text) (x : Value)
  /-- a definition of something other than a symbol -/
  | targetNotSymbol (name : Text) (x : Value)
  /-- the bindings of a block are not a list -/
  | bindingsNotList (name : Text) (x : Value)
  /-- a binding of a block is not a list of two -/
  | bindingNotPair (name : Text) (x : Value)
  /-- a binding of a block binds something other than a symbol -/
  | bindingNotSymbol (name : Text) (x : Value)
  /-- a builtin that needs an argument got none -/
  | noArguments (name : Text)
  /-- a builtin that takes one argument got another number of them -/
  | notOneArgument (name : Text) (args : Nat)
  /-- an argument is not a number -/
  | notNumber (name : Text) (x : Value)
  /-- an argument is not a truth value -/
  | notBoolean (name : Text) (x : Value)
  /-- an argument is not a list -/
  | notList (name : Text) (x : Value)
  /-- the first item of a list that has none -/
  | emptyList (name : Text)
  /-- a bound for random numbers that is not a number -/
  | boundNotNumber (name : Text) (x : Value)
  /-- a bound for random numbers below one or too large -/
  | boundOutOfRange (name : Text) (x : Value)
  /-- a host function's own failure -/
  | host (kind : ErrorKind) (message : Text)
  deriving Repr, Inhabited

namespace Failure

/-- The kind of a failure. -/
def kind : Failure → ErrorKind
  | .nilExpression | .unsupported _ | .paramsNotList _ | .paramNotSymbol _
  | .conditionNotBoolean _ _ | .targetNotSymbol _ _ | .bindingsNotList _ _
  | .bindingNotPair _ _ | .bindingNotSymbol _ _ | .notNumber _ _ | .notBoolean _ _
  | .notList _ _ | .boundNotNumber _ _ => .type
  | .unboundSymbol _ => .unbound
  | .notCallable _ => .notCallable
  | .closureArity _ _ | .formArity _ _ _ | .noArguments _ | .notOneArgument _ _ => .arity
  | .emptyList _ | .boundOutOfRange _ _ => .value
  | .host kind _ => kind

/-- What a failure says. -/
def message (v : Vocabulary) : Failure → Text
  | .nilExpression => "cannot evaluate a nil expression"
  | .unsupported x => Text.ofString "unsupported expression type: " ++ x.print v
  | .unboundSymbol name =>
    Text.ofString "symbol " ++ name ++ Text.ofString " not found in environment"
  | .notCallable head => Text.ofString "not a function: " ++ head.print v
  | .closureArity params args =>
    v.closureForm ++
      Text.ofString " requires the same number of arguments as parameters, got " ++
      Text.ofNat params ++ Text.ofString " parameters and " ++ Text.ofNat args ++
      Text.ofString " arguments"
  | .paramsNotList x =>
    Text.ofString "expected a list of symbols, got " ++ x.typeName ++ Text.space ++ x.print v
  | .paramNotSymbol x => Text.ofString "expected a list of symbols, got " ++ x.print v
  | .formArity name wanted args =>
    name ++ Text.ofString " requires " ++ Text.ofNat wanted ++ Text.ofString " arguments, got " ++
      Text.ofNat args
  | .conditionNotBoolean name x =>
    name ++ Text.ofString " requires a boolean condition, got " ++ x.print v
  | .targetNotSymbol name x =>
    name ++ Text.ofString " requires a symbol as first argument, got " ++ x.print v
  | .bindingsNotList name x =>
    name ++ Text.ofString " first element should be a list of bindings, got " ++ x.print v
  | .bindingNotPair name x =>
    name ++ Text.ofString " requires each binding to be a list of 2 elements, got " ++ x.print v
  | .bindingNotSymbol name x =>
    name ++ Text.ofString " binding name must be a symbol, got " ++ x.print v
  | .noArguments name => name ++ Text.ofString " requires at least one argument"
  | .notOneArgument name args =>
    name ++ Text.ofString " requires exactly one argument, got " ++ Text.ofNat args
  | .notNumber name x =>
    name ++ Text.ofString " expected a number, got " ++ x.typeName ++ Text.space ++ x.print v
  | .notBoolean name x =>
    name ++ Text.ofString " expected a boolean, got " ++ x.typeName ++ Text.space ++ x.print v
  | .notList name x =>
    name ++ Text.ofString " expected a list, got " ++ x.typeName ++ Text.space ++ x.print v
  | .emptyList name => name ++ Text.ofString " of an empty list"
  | .boundNotNumber name x =>
    name ++ Text.ofString " requires a number as first argument, got " ++ x.print v
  | .boundOutOfRange name x =>
    name ++ Text.ofString " bound must be at least 1, got " ++ x.print v
  | .host _ message => message

/-- The failure as a host program is told about it. -/
def report (v : Vocabulary) (f : Failure) : Report := .diagnosis f.kind (f.message v)

end Failure
end Argot
