import Argot.Proofs.SessionTree

set_option autoImplicit false

/-!
# What a program can produce

Nil, strings and scoped blocks exist as values, but no program makes them.  An interpreter
to which the host adds nothing therefore never meets them, neither in a result nor in a
scope, and it never fails for having to evaluate one.  Its closures all remember a scope, or
none does, as the rules say.
-/

namespace Argot

/-- Whether a part of a value is one that programs can make: it is neither nil nor a string
nor a scoped block nor a function of the host, and a closure remembers a scope just if
closures are lexical. -/
def Value.isProduced (lexical : Bool) : Value → Bool
  | .nil | .string _ | .scopedLet _ _ | .builtin ⟨_, _, .host _⟩ => false
  | .closure _ _ home => home.isSome == lexical
  | .quote _ | .symbol _ | .number _ | .boolean _ | .list _ | .builtin _ => true

/-- What programs can make, and the failures that they can meet. -/
def Kind.produced (lexical : Bool) : Kind where
  part y := y.isProduced lexical = true
  failure e := e.isOrdinary = true

/-- Whatever the host functions do, none of them is ever called. -/
theorem Kind.fits_produced (r : Rules) : (Kind.produced r.lexical).Fits r where
  written y isWritten := by
    cases y with
    | nil | string | builtin | closure | scopedLet => cases isWritten
    | _ => rfl
  closure params body scope := by
    show ((if r.lexical then some scope else none).isSome == r.lexical) = true
    cases r.lexical <;> rfl
  ordinary e ordinary := ordinary
  nilExpression impossible := nomatch impossible
  unsupported _ _ impossible := nomatch impossible
  host _ _ _ impossible := nomatch impossible

theorem Kind.produced_builtin (lexical : Bool) (registration : Nat) (name : Text) {op : Primitive}
    (notHost : ∀ slot, op ≠ .host slot) :
    (Kind.produced lexical).part (.builtin ⟨registration, name, op⟩) := by
  cases op with
  | host slot => exact absurd rfl (notHost slot)
  | _ => rfl

theorem Failure.isOrdinary_iff {e : Failure} :
    e.isOrdinary = true ↔ e ≠ .nilExpression ∧ ∀ x, e ≠ .unsupported x := by
  cases e <;> simp [Failure.isOrdinary]

/-- **What a program can produce.**  Take an interpreter with any settings, in any company,
to which the host adds nothing, and let texts be run on it one after another.

* No part of a value that is a result is nil, a string, a scoped block or a function of the
  host, and every closure in it remembers a scope if closures are lexical, and none if they
  are not.  In particular the value is not nil.
* No form fails because it is nil or because no program can spell it.
* What is said of results holds of everything that is bound in a scope that can be reached
  from the global scope. -/
theorem programs_produce_only_their_own (settings : Settings) (c : Commons) (calls : List Call)
    (answers : List Answer) (m : Machine)
    (ends : Machine.answerAll calls (Machine.create settings c) = some (answers, m)) :
    (∀ outcomes, .ok outcomes ∈ answers → ∀ outcome ∈ outcomes,
      (∀ x, outcome = .ok x →
        x ≠ .nil ∧ x.Each fun y => y.isProduced settings.lexical = true) ∧
      ∀ e, outcome = .error e → e ≠ .nilExpression ∧ ∀ y, e ≠ .unsupported y) ∧
    ∀ i, m.commons.store.ReachedFrom [m.interpreter.global] i →
      ∀ name x, m.commons.store.local? i name = some x →
        x.Each fun y => y.isProduced settings.lexical = true := by
  have fresh : (Machine.create settings c).Upholds (.produced settings.lexical) :=
    Machine.upholds_create settings c
      (Kind.fits_produced (Machine.create settings c).interpreter.rules)
      fun registration name _ => Kind.produced_builtin _ registration name
  obtain ⟨upholds, meets⟩ := fresh.answerAll ends
  constructor
  · intro outcomes member outcome among
    have good := meets outcomes member outcome among
    constructor
    · rintro x rfl
      refine ⟨?_, good⟩
      rintro rfl
      cases good.self
    · rintro e rfl
      exact Failure.isOrdinary_iff.1 good
  · intro i reached name x bound
    have inside := upholds.tree.reached
      (List.forall_mem_singleton.2 ⟨Nat.le_refl _, upholds.tree.present⟩) reached
    exact (upholds.tree.bound i name x inside.1 bound).parts

/-- A closure that makes closures, one of which ends up inside a list.  The list is the value
of a name, and it holds a closure that remembers a scope. -/
theorem closure_in_list_is_produced :
    let settings := { Settings.standard .words with lexical := true }
    let calls : List Call :=
      [⟨20, "(var f (closure (n) (closure () n)))"⟩, ⟨20, "(var g (var h (f '(1 b)))) (h) (k)"⟩]
    ∃ answers m x, Machine.answerAll calls (Machine.create settings ∅) = some (answers, m) ∧
      answers.map (Answer.printed .words) =
        [.ok [.ok "(f (closure (n) (closure () n)) true)"],
          .ok [.ok "(g (h (closure () n) true) true)", .ok "(1 b)",
            .error (Failure.report .words (.unboundSymbol "k"))]] ∧
      m.commons.store.local? m.interpreter.global "g" = some x ∧ x.homes = [1] ∧
      x.Each fun y => y.isProduced true = true := by
  intro settings calls
  have session : (Machine.answerAll calls (Machine.create settings ∅)).map (fun out =>
      (decide (out.1.map (Answer.printed .words) =
        [.ok [.ok "(f (closure (n) (closure () n)) true)"],
          .ok [.ok "(g (h (closure () n) true) true)", .ok "(1 b)",
            .error (Failure.report .words (.unboundSymbol "k"))]]),
        (out.2.commons.store.local? out.2.interpreter.global "g").map Value.homes)) =
      some (true, some [1]) := by
    decide +kernel
  obtain ⟨⟨answers, m⟩, ends, facts⟩ := Option.map_eq_some_iff.1 session
  obtain ⟨heard, kept⟩ := Prod.mk.inj facts
  obtain ⟨x, bound, homes⟩ := Option.map_eq_some_iff.1 kept
  obtain ⟨_, produced⟩ := programs_produce_only_their_own settings ∅ calls answers m ends
  exact ⟨answers, m, x, ends, of_decide_eq_true heard, bound, homes,
    produced _ (.start List.mem_cons_self) "g" x bound⟩

end Argot
