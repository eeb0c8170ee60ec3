import Argot.Proofs.Plan

set_option autoImplicit false

/-!
# Fuel

Fuel decides whether there is an answer, and never which one: an evaluation that ends ends
in the same way with more fuel (`eval_more_fuel`), and so any two amounts of fuel that are
enough give the same answer (`eval_answer_unique`).

If the expressions inside end in the same way whenever they end, then so does every move, and
with it every plan.
-/

namespace Argot

namespace Run

variable {α β : Type}

/-- Whenever the first run ends, the second one ends in the same way. -/
def Refines (m m' : Run α) : Prop := ∀ w out, m w = some out → m' w = some out

namespace Refines

theorem refl (m : Run α) : Refines m m := fun _ _ ends => ends

theorem exhausted (m : Run α) : Refines Run.exhausted m := by
  intro w out ends
  cases ends

theorem andThen {m m' : Run α} {f f' : α → Run β} (h : Refines m m')
    (next : ∀ x, Refines (f x) (f' x)) : Refines (m >>= f) (m' >>= f') := by
  intro w out ends
  rw [andThen_apply] at ends ⊢
  cases first : m w with
  | none =>
    rw [first] at ends
    cases ends
  | some middle =>
    obtain ⟨answer, w₁⟩ := middle
    rw [first] at ends
    rw [h w _ first]
    cases answer with
    | error e => exact ends
    | ok x => exact next x w₁ out ends

end Refines
end Run

/-! ## Steps -/

/-- Whenever the first way to evaluate ends, the second one ends in the same way. -/
def Evaluator.Refines (ev ev' : Evaluator) : Prop :=
  ∀ x scope depth, Run.Refines (ev x scope depth) (ev' x scope depth)

section Steps

open Run

variable {ev ev' : Evaluator} (evs : ev.Refines ev') (r : Rules) (scope depth : Nat)

include evs

theorem Move.refines_run (a : Move) :
    (a.run r ev scope depth).Refines (a.run r ev' scope depth) := by
  cases a with
  | block name bindings body => exact (Refines.refl _).andThen fun inner => evs body inner _
  | enter params body home bindings =>
    exact (Refines.refl _).andThen fun inner =>
      (Refines.refl _).andThen fun _ => evs body inner _
  | _ => exact .refl _

theorem Plan.refines_run (p : Plan) :
    (p.run r ev scope depth).Refines (p.run r ev' scope depth) := by
  induction p with
  | move a => exact a.refines_run evs r scope depth
  | eval x next ih => exact (evs x scope _).andThen ih

theorem refines_evalStep : (evalStep r ev).Refines (evalStep r ev') := by
  intro x scope depth
  rw [evalStep_eq, evalStep_eq]
  exact (Refines.refl _).andThen fun _ => Plan.refines_run evs r scope depth _

end Steps

/-! ## Whole evaluations -/

/-- More fuel changes nothing about an evaluation that ends. -/
theorem eval_more_fuel (r : Rules) {fuel fuel' : Nat} (more : fuel ≤ fuel') :
    (eval r fuel).Refines (eval r fuel') := by
  induction fuel generalizing fuel' with
  | zero => exact fun _ _ _ => .exhausted _
  | succ fuel ih =>
    obtain ⟨k, rfl⟩ := Nat.exists_eq_add_of_le more
    rw [Nat.succ_add]
    exact refines_evalStep (ih (Nat.le_add_right fuel k)) r

/-- However much fuel there is, there is at most one answer. -/
theorem eval_answer_unique {r : Rules} {fuel fuel' : Nat} {x : Value} {scope depth : Nat}
    {w : World} {out out' : Except Failure Value × World}
    (ends : eval r fuel x scope depth w = some out)
    (ends' : eval r fuel' x scope depth w = some out') : out = out' := by
  rcases Nat.le_total fuel fuel' with more | more
  · have later := eval_more_fuel r more x scope depth w out ends
    exact Option.some.inj (later.symm.trans ends')
  · have later := eval_more_fuel r more x scope depth w out' ends'
    exact Option.some.inj (ends.symm.trans later)

end Argot
