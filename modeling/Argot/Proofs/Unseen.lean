import Argot.Proofs.Plan

set_option autoImplicit false

/-!
# What an evaluation does not see

Scopes have names for display, and the trace is written and never read.  A world is *bare*
without both (`World.bare`).  Runs agree (`Run.Agrees`) when they give the same answer and
leave the same bare world behind wherever they start in the same bare world.

Evaluation agrees with itself, whether or not there is a trace (`eval_agrees`).  So what
is evaluated in a scope does not depend on what the scope is called.
-/

namespace Argot

/-! ## Bare worlds -/

/-- The scope without its name. -/
def Frame.nameless (f : Frame) : Frame := { f with name := [] }

theorem Frame.eq_of_nameless {f f' : Frame} (names : f.name = f'.name)
    (rest : f.nameless = f'.nameless) : f = f' := by
  cases f
  cases f'
  simp_all [nameless]

namespace Store

/-- The scopes without their names. -/
def nameless (s : Store) : Store := { s with frames := s.frames.map Frame.nameless }

theorem frame?_nameless (s : Store) (i : Nat) :
    s.nameless.frame? i = (s.frame? i).map Frame.nameless := by
  simp [frame?, nameless]

@[simp] theorem size_nameless (s : Store) : s.nameless.size = s.size := by
  simp [size, nameless]

theorem nameless_push (s : Store) (f : Frame) :
    (s.push f).nameless = s.nameless.push f.nameless := by
  simp [push, nameless]

theorem nameless_bind (s : Store) (scope : Nat) (name : Text) (x : Value) :
    (s.bind scope name x).nameless = s.nameless.bind scope name x := by
  refine congrArg (Store.mk · s.registrations) (Array.ext_getElem? fun i => ?_)
  have bound := (s.bind scope name x).frame?_nameless i
  have unbound := s.nameless.frame?_bind scope i name x
  refine bound.trans (Eq.trans ?_ unbound.symm)
  rw [frame?_bind, frame?_nameless]
  split <;> cases s.frame? i <;> rfl

theorem local?_nameless (s : Store) (i : Nat) (name : Text) :
    s.nameless.local? i name = s.local? i name := by
  rw [local?, frame?_nameless, Option.bind_map]
  rfl

theorem parent?_nameless (s : Store) (i : Nat) : s.nameless.parent? i = s.parent? i := by
  rw [parent?, frame?_nameless, Option.bind_map]
  rfl

/-- Names of scopes do not matter to what the names in them mean. -/
theorem lookup_nameless (s : Store) (scope : Nat) (name : Text) :
    s.nameless.lookup scope name = s.lookup scope name := by
  unfold lookup
  generalize scope + 1 = bound
  induction bound generalizing scope with
  | zero => rfl
  | succ bound ih => simp only [lookupUpTo, local?_nameless, parent?_nameless, ih]

end Store

/-- The world without the names of scopes and without the trace. -/
def World.bare (w : World) : World := { w with store := w.store.nameless, trace := [] }

theorem World.bare_eq_iff {w w' : World} :
    w.bare = w'.bare ↔ w.store.nameless = w'.store.nameless ∧ w.generator = w'.generator := by
  simp [bare]

namespace Run

variable {α β : Type}

/-! ## Runs that agree -/

/-- What is seen of the end of a run: its answer, and the world laid bare. -/
def seen (out : Except Failure α × World) : Except Failure α × World := (out.1, out.2.bare)

/-- Starting in the same bare world, the runs cannot be told apart. -/
def Agrees (m m' : Run α) : Prop :=
  ∀ w w', w.bare = w'.bare → (m w).map seen = (m' w').map seen

/-- Runs that agree both fail to end, or both end with the same answer. -/
theorem map_seen_eq_iff {out out' : Option (Except Failure α × World)} :
    out.map seen = out'.map seen ↔
      (out = none ∧ out' = none) ∨
        ∃ answer w w', out = some (answer, w) ∧ out' = some (answer, w') ∧ w.bare = w'.bare := by
  constructor
  · intro same
    rcases out with _ | ⟨answer, w⟩ <;> rcases out' with _ | ⟨answer', w'⟩
    · exact .inl ⟨rfl, rfl⟩
    · cases same
    · cases same
    · obtain ⟨rfl, bare⟩ := Prod.mk.inj (Option.some.inj same)
      exact .inr ⟨answer, w, w', rfl, rfl, bare⟩
  · rintro (⟨rfl, rfl⟩ | ⟨answer, w, w', rfl, rfl, bare⟩)
    · rfl
    · exact congrArg (fun end' => some (answer, end')) bare

namespace Agrees

/-- Runs that end for certain, with known results. -/
theorem of_apply {m m' : Run α} {out out' : World → Except Failure α × World}
    (known : ∀ w, m w = some (out w)) (known' : ∀ w, m' w = some (out' w))
    (alike : ∀ w w', w.bare = w'.bare →
      (out w).1 = (out' w').1 ∧ (out w).2.bare = (out' w').2.bare) : Agrees m m' := by
  intro w w' same
  obtain ⟨answers, worlds⟩ := alike w w' same
  rw [known, known']
  exact congrArg some (Prod.ext answers worlds)

theorem exhausted : Agrees (Run.exhausted : Run α) Run.exhausted := fun _ _ _ => rfl

theorem pure (x : α) : Agrees (Pure.pure x) (Pure.pure x) :=
  of_apply (pure_apply x) (pure_apply x) fun _ _ same => ⟨rfl, same⟩

theorem throw (e : Failure) : Agrees (MonadExcept.throw e : Run α) (MonadExcept.throw e) :=
  of_apply (throw_apply e) (throw_apply e) fun _ _ same => ⟨rfl, same⟩

theorem andThen {m m' : Run α} {f f' : α → Run β} (h : Agrees m m')
    (next : ∀ x, Agrees (f x) (f' x)) : Agrees (m >>= f) (m' >>= f') := by
  intro w w' same
  rw [andThen_apply, andThen_apply]
  rcases map_seen_eq_iff.1 (h w w' same) with
    ⟨none, none'⟩ | ⟨answer, w₁, w₁', ends, ends', same₁⟩
  · rw [none, none']
  · rw [ends, ends']
    cases answer with
    | error e => exact throw e w₁ w₁' same₁
    | ok x => exact next x w₁ w₁' same₁

/-- A line of the trace is not seen, and neither is its absence. -/
theorem record (r r' : Rules) (e e' : TraceEvent) : Agrees (Run.record r e) (Run.record r' e') :=
  of_apply (record_apply r e) (record_apply r' e') fun _ _ same => ⟨rfl, same⟩

theorem pure_record (r : Rules) (e : TraceEvent) : Agrees (Pure.pure ()) (Run.record r e) :=
  record { r with tracing := false } r e e

/-- So a line can be left out. -/
theorem record_andThen (r : Rules) (e : TraceEvent) {m m' : Run α} (h : Agrees m m') :
    Agrees m (Run.record r e >>= fun _ => m') := by
  rw [← pure_bind () fun _ => m]
  exact (pure_record r e).andThen fun _ => h

theorem lookup (scope : Nat) (name : Text) :
    Agrees (Run.lookup scope name) (Run.lookup scope name) := by
  refine of_apply (lookup_apply scope name) (lookup_apply scope name) fun w w' same => ⟨?_, same⟩
  have meaning : w.store.lookup scope name = w'.store.lookup scope name := by
    rw [← Store.lookup_nameless, (World.bare_eq_iff.1 same).1, Store.lookup_nameless]
  rw [meaning]

theorem bind (scope : Nat) (name : Text) (x : Value) :
    Agrees (Run.bind scope name x) (Run.bind scope name x) := by
  refine of_apply (bind_apply scope name x) (bind_apply scope name x) fun w w' same => ⟨rfl, ?_⟩
  obtain ⟨stores, generators⟩ := World.bare_eq_iff.1 same
  refine World.bare_eq_iff.2 ⟨?_, generators⟩
  rw [Store.nameless_bind, Store.nameless_bind, stores]

/-- It makes no difference under which name a scope is made. -/
theorem pushFrame {f f' : Frame} (frames : f.nameless = f'.nameless) :
    Agrees (Run.pushFrame f) (Run.pushFrame f') := by
  refine of_apply (pushFrame_apply f) (pushFrame_apply f') fun w w' same => ?_
  obtain ⟨stores, generators⟩ := World.bare_eq_iff.1 same
  refine ⟨congrArg Except.ok ?_, World.bare_eq_iff.2 ⟨?_, generators⟩⟩
  · rw [← w.store.size_nameless, stores, Store.size_nameless]
  · rw [Store.nameless_push, Store.nameless_push, stores, frames]

theorem callBuiltin (r : Rules) (tracing : Bool) (b : Builtin) (args : List Value) :
    Agrees (Run.callBuiltin r b args) (Run.callBuiltin { r with tracing } b args) := by
  refine of_apply (callBuiltin_apply r b args) (callBuiltin_apply _ b args) fun w w' same => ?_
  obtain ⟨stores, generators⟩ := World.bare_eq_iff.1 same
  refine ⟨?_, World.bare_eq_iff.2 ⟨stores, ?_⟩⟩
  · rw [generators]
  · rw [generators]

end Agrees
end Run

/-! ## Steps -/

/-- The expression is evaluated in ways that agree. -/
def Evaluator.Agrees (ev ev' : Evaluator) : Prop :=
  ∀ x scope depth, Run.Agrees (ev x scope depth) (ev' x scope depth)

section Steps

open Run

variable {ev ev' : Evaluator} (evs : ev.Agrees ev') (r : Rules) (tracing : Bool)
  (scope depth : Nat)

include evs

theorem Move.agrees_run (a : Move) :
    (a.run r ev scope depth).Agrees (a.run { r with tracing } ev' scope depth) := by
  cases a with
  | answer x => exact .pure x
  | fail e => exact .throw e
  | lookup name => exact .lookup scope name
  | define name x => exact (Run.Agrees.bind scope name x).andThen fun _ => .pure _
  | close params body => exact .pure _
  | call b args =>
    exact (Run.Agrees.record r _ _ _).andThen fun _ => .callBuiltin r tracing b args
  | block name bindings body =>
    exact (Run.Agrees.pushFrame rfl).andThen fun inner => evs body inner (depth + 1)
  | enter params body home bindings =>
    exact (Run.Agrees.pushFrame rfl).andThen fun inner =>
      (Run.Agrees.record r _ _ _).andThen fun _ => evs body inner (depth + 1)

theorem Plan.agrees_run (p : Plan) :
    (p.run r ev scope depth).Agrees (p.run { r with tracing } ev' scope depth) := by
  induction p with
  | move a => exact a.agrees_run evs r tracing scope depth
  | eval x next ih => exact (evs x scope (depth + 1)).andThen ih

theorem agrees_evalStep : (evalStep r ev).Agrees (evalStep { r with tracing } ev') := by
  intro x scope depth
  rw [evalStep_eq, evalStep_eq]
  exact (Run.Agrees.record r _ _ _).andThen fun _ =>
    Plan.agrees_run evs r tracing scope depth _

end Steps

/-- Evaluation sees neither the names of scopes nor the trace, which it may write or not. -/
theorem eval_agrees (r : Rules) (tracing : Bool) (fuel : Nat) :
    (eval r fuel).Agrees (eval { r with tracing } fuel) := by
  induction fuel with
  | zero => exact fun _ _ _ => .exhausted
  | succ fuel ih => exact agrees_evalStep ih r tracing

end Argot
