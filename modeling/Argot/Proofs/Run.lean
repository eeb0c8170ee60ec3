import Argot.Eval.Basic

set_option autoImplicit false

/-!
# Reasoning about runs

`Run.Ends m w post` says that if the run `m` ends at all when it starts in the world `w`,
then its answer and the world it leaves behind satisfy `post`.  One rule for each way to
build a run lets a proof follow the text of the evaluator.

Many properties of evaluation only relate the world before to the world after.  For
these, `Run.Stays R m` says that `m` moves along the relation `R` from wherever it starts.
-/

namespace Argot.Run

variable {α β : Type}

/-! ## What a run ends with -/

/-- The result of a run with a continuation, by the result of the run itself.  This and
the next two hold for runs over any kind of state. -/
theorem andThen_apply {σ : Type} (m : ExceptT Failure (StateT σ Option) α)
    (f : α → ExceptT Failure (StateT σ Option) β) (w : σ) :
    (m >>= f) w =
      match m w with
      | none => none
      | some (.error e, w') => some (.error e, w')
      | some (.ok x, w') => f x w' := by
  show (StateT.bind m _ w : Option (Except Failure β × σ)) = _
  unfold StateT.bind
  cases result : m w with
  | none => rfl
  | some out =>
    obtain ⟨answer, w'⟩ := out
    cases answer <;> rfl

@[simp] theorem pure_apply {σ : Type} (x : α) (w : σ) :
    (pure x : ExceptT Failure (StateT σ Option) α) w = some (.ok x, w) := rfl

@[simp] theorem throw_apply {σ : Type} (e : Failure) (w : σ) :
    (throw e : ExceptT Failure (StateT σ Option) α) w = some (.error e, w) := rfl

@[simp] theorem pushFrame_apply (f : Frame) (w : World) :
    pushFrame f w = some (.ok w.store.size, { w with store := w.store.push f }) := rfl

@[simp] theorem bind_apply (scope : Nat) (name : Text) (x : Value) (w : World) :
    bind scope name x w = some (.ok (), { w with store := w.store.bind scope name x }) := rfl

theorem record_apply (r : Rules) (e : TraceEvent) (w : World) :
    record r e w =
      some (.ok (), { w with trace := if r.tracing then e :: w.trace else w.trace }) := by
  unfold record
  split <;> rfl

theorem lookup_apply (scope : Nat) (name : Text) (w : World) :
    lookup scope name w =
      some ((w.store.lookup scope name).elim (.error (.unboundSymbol name)) .ok, w) := by
  have current : (get : Run World) w = some (.ok w, w) := rfl
  unfold lookup
  rw [andThen_apply, current]
  dsimp only
  cases w.store.lookup scope name <;> rfl

theorem callBuiltin_apply (r : Rules) (b : Builtin) (args : List Value) (w : World) :
    callBuiltin r b args w =
      some ((b.op.apply r.host b.name args w.generator).1,
        { w with generator := (b.op.apply r.host b.name args w.generator).2 }) := by
  have stepped (f : World → Except Failure Value × World) :
      (modifyGet f : Run (Except Failure Value)) w = some (.ok (f w).1, (f w).2) := rfl
  unfold callBuiltin
  rw [andThen_apply, stepped]
  generalize b.op.apply r.host b.name args w.generator = result
  obtain ⟨answer, g⟩ := result
  cases answer <;> rfl

/-! ## Postconditions -/

/-- If the run ends, its answer and the world after it satisfy the postcondition. -/
def Ends (m : Run α) (w : World) (post : Except Failure α → World → Prop) : Prop :=
  ∀ answer w', m w = some (answer, w') → post answer w'

theorem Ends.mono {m : Run α} {w : World} {post post' : Except Failure α → World → Prop}
    (h : m.Ends w post) (weaker : ∀ answer w', post answer w' → post' answer w') :
    m.Ends w post' :=
  fun answer w' result => weaker answer w' (h answer w' result)

/-- A run that ends for certain, with a known result. -/
theorem Ends.of_apply {m : Run α} {w w₁ : World} {result : Except Failure α}
    {post : Except Failure α → World → Prop} (known : m w = some (result, w₁))
    (h : post result w₁) : m.Ends w post := by
  intro answer w' ends
  rw [known] at ends
  cases ends
  exact h

theorem Ends.exhausted {w : World} {post : Except Failure α → World → Prop} :
    (exhausted : Run α).Ends w post := by
  intro answer w' result
  cases result

/-- A run with a continuation: a failure is final, and an answer is passed on. -/
theorem Ends.andThen {m : Run α} {f : α → Run β} {w : World}
    {post : Except Failure β → World → Prop}
    (h : m.Ends w fun answer w₁ =>
      (∀ e, answer = .error e → post (.error e) w₁) ∧ ∀ x, answer = .ok x → (f x).Ends w₁ post) :
    (m >>= f).Ends w post := by
  intro answer w' result
  rw [andThen_apply] at result
  cases first : m w with
  | none =>
    rw [first] at result
    cases result
  | some out =>
    obtain ⟨middle, w₁⟩ := out
    obtain ⟨failed, answered⟩ := h middle w₁ first
    rw [first] at result
    cases middle with
    | error e =>
      cases result
      exact failed e rfl
    | ok x => exact answered x rfl answer w' result

/-! ## Relations between before and after -/

/-- The run moves along the relation, from every world. -/
def Stays (R : World → World → Prop) (m : Run α) : Prop :=
  ∀ w, m.Ends w fun _ w' => R w w'

/-- Nothing happens along the relation, and what happens in two steps happens in one. -/
structure IsPath (R : World → World → Prop) : Prop where
  refl : ∀ w, R w w
  trans : ∀ {w₁ w₂ w₃}, R w₁ w₂ → R w₂ w₃ → R w₁ w₃

variable {R : World → World → Prop}

theorem Stays.pure (path : IsPath R) (x : α) : Stays R (pure x : Run α) :=
  fun w => .of_apply (pure_apply x w) (path.refl w)

theorem Stays.throw (path : IsPath R) (e : Failure) : Stays R (throw e : Run α) :=
  fun w => .of_apply (throw_apply e w) (path.refl w)

theorem Stays.exhausted : Stays R (exhausted : Run α) := fun _ => .exhausted

theorem Stays.andThen (path : IsPath R) {m : Run α} {f : α → Run β} (h : Stays R m)
    (h' : ∀ x, Stays R (f x)) : Stays R (m >>= f) := by
  intro w
  refine .andThen ((h w).mono ?_)
  intro answer w₁ first
  refine ⟨fun e _ => first, ?_⟩
  intro x _
  exact (h' x w₁).mono fun _ _ second => path.trans first second

end Argot.Run
