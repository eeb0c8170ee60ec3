import Argot.Interpreter.Basic

set_option autoImplicit false

/-!
# Cloning an interpreter

The clone gets a copy of the global scope.  Closures that were made below the old global
scope remember scopes whose chain ends there, so every scope with the old global scope on
its chain is copied along, and the closures bound in the copies remember copies.  The
old scopes are left as they are.

A closure is moved over if it is itself the value of a binding; one inside a list still
remembers the scope it was made in.

Normative source: SPEC_FULL §5 (environments cloned for each thread) and §14 (captured
scopes).
-/

namespace Argot

/-- The scopes to be copied, in increasing order, and the number that the first copy gets. -/
structure Relocation where
  scopes : List Nat
  first : Nat
  deriving DecidableEq, Repr

namespace Relocation

/-- Where a scope is after the move: at its copy, if it has one. -/
def image (r : Relocation) (scope : Nat) : Nat :=
  match r.scopes.idxOf? scope with
  | some k => r.first + k
  | none => scope

/-- Makes a closure remember the copy of its scope. -/
def value (r : Relocation) : Value → Value
  | .closure params body (some home) => .closure params body (some (r.image home))
  | x => x

/-- The copy of a scope, with parent and bindings moved over. -/
def frame (r : Relocation) (f : Frame) : Frame :=
  { f with
    parent := f.parent.map r.image
    bindings := f.bindings.map fun _ x => r.value x }

/-- Every scope with `root` on its chain. -/
def below (s : Store) (root : Nat) : Relocation :=
  ⟨(List.range s.size).filter fun i => (s.chain i).contains root, s.size⟩

end Relocation

/-- Adds a copy of every scope with `root` on its chain. -/
def Store.copyBelow (s : Store) (root : Nat) : Store :=
  let r := Relocation.below s root
  (r.scopes.filterMap s.frame?).foldl (fun t f => t.push (r.frame f)) s

/-- A second interpreter that starts out with the same bindings and has an empty cache.
Its random numbers are drawn from a generator seeded by the first one's. -/
def Machine.clone (m : Machine) : Interpreter × Machine :=
  let ⟨i, c⟩ := m
  let (seeded, generator) := i.generator.split
  let twin : Interpreter :=
    { i with
      global := (Relocation.below c.store i.global).image i.global
      generator := seeded
      cache := ParseCache.ofCapacity i.cache.capacity }
  (twin, ⟨{ i with generator }, { c with store := c.store.copyBelow i.global }⟩)

/-! ## Several interpreters -/

/-- Interpreters over one store, numbered in the order in which they were made. -/
structure Session where
  interpreters : Array Interpreter
  commons : Commons

namespace Session

/-- A session with one interpreter. -/
def start (s : Settings) : Session :=
  let m := Machine.create s ∅
  ⟨#[m.interpreter], m.commons⟩

/-- Lets interpreter `k` do something. -/
def act {α : Type} (k : Nat) (a : Act α) (s : Session) : Option (α × Session) :=
  let ⟨interpreters, commons⟩ := s
  match interpreters[k]? with
  | none => none
  | some i =>
    match a ⟨i, commons⟩ with
    | none => none
    | some (x, ⟨i, commons⟩) => some (x, ⟨interpreters.setIfInBounds k i, commons⟩)

/-- Adds a clone of interpreter `k`. -/
def clone (k : Nat) (s : Session) : Option (Nat × Session) :=
  let ⟨interpreters, commons⟩ := s
  match interpreters[k]? with
  | none => none
  | some i =>
    let (twin, ⟨i, commons⟩) := Machine.clone ⟨i, commons⟩
    some (interpreters.size, ⟨(interpreters.setIfInBounds k i).push twin, commons⟩)

/-- The lines of the trace since they were last collected. -/
def collectTrace (s : Session) : List TraceEvent × Session :=
  (s.commons.trace.reverse, { s with commons := { s.commons with trace := [] } })

end Session
end Argot
