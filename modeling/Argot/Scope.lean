import Argot.NameMap
import Argot.Value
import Argot.Printer

set_option autoImplicit false

/-!
# Scopes

A scope binds names and may have a parent, through which the names it does not bind
itself are looked up.  All scopes live in a store, numbered in the order in which they
are made, and a parent is always older than its children: a scope's *chain*, the scope
itself and its ancestors from the inside out, is therefore a strictly decreasing list of
numbers.  A link that does not point to an older scope is not followed.

Reading goes through the chain; writing touches one scope only.

Normative source: SPEC_FULL §3 (scope frames) and §4.4 (environment lookup).
-/

namespace Argot

/-- One scope. -/
structure Frame where
  name : Text
  parent : Option Nat
  isGlobal : Bool
  bindings : NameMap Value
  deriving Inhabited

/-- All scopes that have been made, and how many registrations of builtins there were. -/
structure Store where
  frames : Array Frame
  registrations : Nat
  deriving Inhabited

namespace Store

/-- The store without scopes. -/
def empty : Store := ⟨#[], 0⟩

instance : EmptyCollection Store := ⟨empty⟩

/-- The scope of a number. -/
def frame? (s : Store) (scope : Nat) : Option Frame := s.frames[scope]?

/-- The number of scopes, which is the number of the next one. -/
def size (s : Store) : Nat := s.frames.size

/-! ## Making scopes -/

/-- Adds a scope; its number is the old size of the store. -/
def push (s : Store) (f : Frame) : Store := { s with frames := s.frames.push f }

/-- A scope without parent that binds nothing. -/
def globalFrame : Frame := ⟨"global", none, true, ∅⟩

/-- A scope under `parent` that binds nothing. -/
def childFrame (name : Text) (parent : Nat) : Frame := ⟨name, some parent, false, ∅⟩

/-- Adds a copy of a scope: the same parent and the same bindings. -/
def duplicate (s : Store) (scope : Nat) : Store :=
  match s.frame? scope with
  | some f => s.push f
  | none => s

/-- A number for the next registration of builtins. -/
def register (s : Store) : Nat × Store :=
  (s.registrations, { s with registrations := s.registrations + 1 })

@[simp] theorem frame?_push (s : Store) (f : Frame) (scope : Nat) :
    (s.push f).frame? scope = if scope = s.size then some f else s.frame? scope := by
  simp only [frame?, push, size, Array.getElem?_push]
  rfl

@[simp] theorem size_push (s : Store) (f : Frame) : (s.push f).size = s.size + 1 := by
  simp [size, push]

/-! ## Chains -/

/-- The parent of a scope. -/
def parent? (s : Store) (scope : Nat) : Option Nat :=
  ((s.frame? scope).bind Frame.parent).filter (· < scope)

theorem parent?_lt {s : Store} {scope p : Nat} (h : s.parent? scope = some p) : p < scope := by
  have := (Option.filter_eq_some_iff.1 h).2
  simpa using this

/-- The first `bound` members of the chain of a scope. -/
def chainUpTo (s : Store) : (bound : Nat) → (scope : Nat) → List Nat
  | 0, _ => []
  | bound + 1, scope =>
    if scope < s.size then
      scope ::
        match s.parent? scope with
        | none => []
        | some p => chainUpTo s bound p
    else []

/-- A scope and its ancestors, from the inside out. -/
def chain (s : Store) (scope : Nat) : List Nat := chainUpTo s (scope + 1) scope

/-- A chain has no more members than the number of its first one allows. -/
theorem chainUpTo_eq_of_lt (s : Store) {b c scope : Nat} (hb : scope < b) (hc : scope < c) :
    chainUpTo s b scope = chainUpTo s c scope := by
  induction b generalizing c scope with
  | zero => omega
  | succ b ih =>
    obtain ⟨c, rfl⟩ : ∃ c', c = c' + 1 := ⟨c - 1, by omega⟩
    unfold chainUpTo
    cases parent : s.parent? scope with
    | none => rfl
    | some p =>
      have older := parent?_lt parent
      simp only
      rw [ih (c := c) (by omega) (by omega)]

/-- The chain of a scope is the scope and then the chain of its parent. -/
theorem chain_eq (s : Store) (scope : Nat) :
    s.chain scope =
      if scope < s.size then
        scope ::
          match s.parent? scope with
          | none => []
          | some p => s.chain p
      else [] := by
  rw [chain, chainUpTo]
  cases parent : s.parent? scope with
  | none => rfl
  | some p =>
    have older := parent?_lt parent
    simp only
    rw [chain, chainUpTo_eq_of_lt s older (Nat.lt_succ_self p)]

/-! ## Names -/

/-- What a scope itself binds a name to. -/
def local? (s : Store) (scope : Nat) (name : Text) : Option Value :=
  (s.frame? scope).bind fun f => f.bindings.find? name

/-- What a name means to the first `bound` members of the chain of a scope. -/
def lookupUpTo (s : Store) (name : Text) : (bound : Nat) → (scope : Nat) → Option Value
  | 0, _ => none
  | bound + 1, scope =>
    match s.local? scope name with
    | some x => some x
    | none =>
      match s.parent? scope with
      | none => none
      | some p => lookupUpTo s name bound p

/-- What a name means in a scope: the binding of the innermost scope on its chain that
has one. -/
def lookup (s : Store) (scope : Nat) (name : Text) : Option Value :=
  lookupUpTo s name (scope + 1) scope

/-- A number that no scope has binds nothing. -/
theorem local?_eq_none_of_le {s : Store} {scope : Nat} (h : s.size ≤ scope) (name : Text) :
    s.local? scope name = none := by
  have missing : s.frame? scope = none := Array.getElem?_eq_none h
  simp [local?, missing]

/-- A number that no scope has is without parent. -/
theorem parent?_eq_none_of_le {s : Store} {scope : Nat} (h : s.size ≤ scope) :
    s.parent? scope = none := by
  have missing : s.frame? scope = none := Array.getElem?_eq_none h
  simp [parent?, missing]

theorem lookupUpTo_eq_findSome? (s : Store) (name : Text) (bound scope : Nat) :
    s.lookupUpTo name bound scope =
      (s.chainUpTo bound scope).findSome? fun i => s.local? i name := by
  induction bound generalizing scope with
  | zero => rfl
  | succ bound ih =>
    unfold lookupUpTo chainUpTo
    by_cases present : scope < s.size
    · rw [if_pos present, List.findSome?_cons]
      cases s.local? scope name with
      | some x => rfl
      | none =>
        cases s.parent? scope with
        | none => rfl
        | some p => exact ih p
    · have absent : s.size ≤ scope := Nat.le_of_not_lt present
      rw [if_neg present, local?_eq_none_of_le absent, parent?_eq_none_of_le absent]
      rfl

/-- Looking a name up is looking for it along the chain. -/
theorem lookup_eq_findSome? (s : Store) (scope : Nat) (name : Text) :
    s.lookup scope name = (s.chain scope).findSome? fun i => s.local? i name :=
  lookupUpTo_eq_findSome? s name (scope + 1) scope

/-- Binds a name in one scope, in place of an earlier binding there. -/
def bind (s : Store) (scope : Nat) (name : Text) (x : Value) : Store :=
  { s with frames := s.frames.modify scope fun f =>
      { f with bindings := f.bindings.insert name x } }

/-- Whether a scope itself binds a name. -/
def isBound (s : Store) (scope : Nat) (name : Text) : Bool := (s.local? scope name).isSome

/-- The names that a scope itself binds, in order. -/
def names (s : Store) (scope : Nat) : List Text :=
  match s.frame? scope with
  | some f => f.bindings.names
  | none => []

/-- Every name that means something in a scope, in order. -/
def visibleNames (s : Store) (scope : Nat) : List Text :=
  (NameMap.ofList ((s.chain scope).flatMap fun i => (s.names i).map (·, ()))).names

/-- How many ancestors a scope has. -/
def depth (s : Store) (scope : Nat) : Nat := (s.chain scope).length - 1

@[simp] theorem size_bind (s : Store) (scope : Nat) (name : Text) (x : Value) :
    (s.bind scope name x).size = s.size := by simp [size, bind]

theorem frame?_bind (s : Store) (scope i : Nat) (name : Text) (x : Value) :
    (s.bind scope name x).frame? i =
      if i = scope then
        (s.frame? i).map fun f => { f with bindings := f.bindings.insert name x }
      else s.frame? i := by
  simp only [frame?, bind, Array.getElem?_modify]
  by_cases h : scope = i
  · simp [h]
  · simp [h, Ne.symm h]

@[simp] theorem parent?_bind (s : Store) (scope i : Nat) (name : Text) (x : Value) :
    (s.bind scope name x).parent? i = s.parent? i := by
  simp only [parent?, frame?_bind]
  by_cases h : i = scope
  · subst h
    cases s.frame? i <;> simp
  · simp [h]

/-- Binding adds no link and removes none. -/
@[simp] theorem chain_bind (s : Store) (scope i : Nat) (name : Text) (x : Value) :
    (s.bind scope name x).chain i = s.chain i := by
  unfold chain
  generalize i + 1 = bound
  induction bound generalizing i with
  | zero => rfl
  | succ bound ih => simp only [chainUpTo, size_bind, parent?_bind, ih]

theorem local?_bind (s : Store) (scope i : Nat) (name n : Text) (x : Value) :
    (s.bind scope name x).local? i n =
      if i = scope ∧ n = name ∧ scope < s.size then some x else s.local? i n := by
  simp only [local?, frame?_bind]
  by_cases h : i = scope
  · subst h
    by_cases present : i < s.size
    · have found : s.frame? i = some s.frames[i] := by
        simpa [frame?] using Array.getElem?_eq_getElem present
      simp [found, present]
    · have missing : s.frame? i = none := by
        simpa [frame?, size] using present
      simp [missing, present]
  · simp [h]

/-! ## Display -/

/-- The bindings of a scope, one on a line, under a heading with a label. -/
def render (s : Store) (v : Vocabulary) (label : Text) (scope : Nat) : Text :=
  match s.frame? scope with
  | none => []
  | some f =>
    label ++ Text.ofString " scope " ++ f.name ++
      (if f.isGlobal then Text.ofString " (global)" else []) ++ Text.ofString ":\n" ++
      f.bindings.entries.flatMap fun (name, x) =>
        Text.ofString "   " ++ name ++ Text.ofString " -> " ++ x.print v ++ Text.newline

end Store
end Argot
