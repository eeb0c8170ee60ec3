import Argot.Proofs.Fuel
import Argot.Proofs.Packing
import Argot.Proofs.Parts
import Argot.Proofs.Visibility

set_option autoImplicit false

/-!
# Programs without closures

Only a call of a closure evaluates something that is not part of the expression.  Where there is no
closure, neither in the expression nor in what is visible, and the keyword that makes closures does
not occur, none can come up: builtins make no closures, and what a name means is not evaluated
again.  Such an expression is evaluated part by part, and evaluation nests no deeper than the
expression does (`closureless_programs_end`).

`Run.Completes` says this of a run: it ends, it leaves no closure in sight, and whatever it writes
to the trace is not below a limit.  There is one rule for each way to build a run, and one case for
each move of a plan.
-/

namespace Argot

/-! ## Values without closures -/

namespace Value

/-- Whether a part of a value is neither a closure nor a function of the host, unless it is one of
those that are trusted. -/
def isClosurelessPart (trusted : Nat → Bool) : Value → Bool
  | .closure _ _ _ => false
  | .builtin ⟨_, _, .host slot⟩ => trusted slot
  | _ => true

/-- There is no closure in the value, and no function of the host that is not trusted. -/
def Closureless (trusted : Nat → Bool) (x : Value) : Prop :=
  x.Each fun y => y.isClosurelessPart trusted = true

instance (trusted : Nat → Bool) : DecidablePred (Closureless trusted) := fun x =>
  inferInstanceAs (Decidable (x.Each fun y => y.isClosurelessPart trusted = true))

/-- Whether a part of a value is anything but the keyword. -/
def isOtherThan (keyword : Text) : Value → Bool
  | .symbol n => n != keyword
  | _ => true

/-- The keyword occurs nowhere in the value. -/
def Avoids (keyword : Text) (x : Value) : Prop := x.Each fun y => y.isOtherThan keyword = true

instance (keyword : Text) : DecidablePred (Avoids keyword) := fun x =>
  inferInstanceAs (Decidable (x.Each fun y => y.isOtherThan keyword = true))

variable {trusted : Nat → Bool} {keyword : Text}

theorem inherited_closureless (trusted : Nat → Bool) : Inherited (Closureless trusted) :=
  inherited_each (fun _ => rfl) (fun _ => rfl) fun _ => rfl

theorem Closureless.items {xs : List Value} (h : (Value.list xs).Closureless trusted) :
    ∀ x ∈ xs, x.Closureless trusted :=
  (inherited_closureless trusted).list.1 h

theorem closureless_symbol (n : Text) : (Value.symbol n).Closureless trusted := each_symbol.2 rfl

theorem not_closureless_closure {params body : Value} {home : Option Nat} :
    ¬ (Value.closure params body home).Closureless trusted :=
  fun h => Bool.false_ne_true h.self

theorem Avoids.items {xs : List Value} (h : (Value.list xs).Avoids keyword) :
    ∀ x ∈ xs, x.Avoids keyword :=
  (each_list.1 h).2

/-- The items of a list are nested less deep than the list. -/
theorem nesting_lt_of_mem {x : Value} {xs : List Value} (member : x ∈ xs) :
    x.nesting < nestingOfItems xs := by
  induction xs with
  | nil => cases member
  | cons y ys ih =>
    rw [nestingOfItems]
    rcases List.mem_cons.1 member with rfl | later
    · exact Nat.lt_of_lt_of_le (Nat.lt_succ_self _) (Nat.le_max_left _ _)
    · exact Nat.lt_of_lt_of_le (ih later) (Nat.le_max_right _ _)

end Value

/-- Functions of the host that are trusted answer without closures when they are given none, and
without functions that are not trusted. -/
def Host.Closureless (trusted : Nat → Bool) (host : Host) : Prop :=
  ∀ slot, trusted slot = true → ∀ name args y, (∀ x ∈ args, Value.Closureless trusted x) →
    host slot name args = .ok y → Value.Closureless trusted y

/-- The scope is there, and no closure is visible from it. -/
structure World.Closureless (trusted : Nat → Bool) (scope : Nat) (w : World) : Prop where
  present : scope < w.store.size
  visible : ∀ name y, w.store.lookup scope name = some y → y.Closureless trusted

/-! ## Runs that complete -/

namespace Run

variable {α β : Type} {trusted : Nat → Bool} {limit scope : Nat} {P : α → Prop} {Q : β → Prop}

/-- From every world in which no closure is visible from the scope, the run ends in such a world,
with an answer that has the property or with a failure, and the lines that it adds to the trace are
not deeper than the limit. -/
def Completes (trusted : Nat → Bool) (limit scope : Nat) (P : α → Prop) (m : Run α) : Prop :=
  ∀ w, w.Closureless trusted scope → ∃ answer w' lines, m w = some (answer, w') ∧
    w'.Closureless trusted scope ∧ (∀ y, answer = .ok y → P y) ∧
    w'.trace = lines ++ w.trace ∧ ∀ e ∈ lines, e.depth ≤ limit

namespace Completes

/-- A run that writes nothing to the trace and is known to end. -/
theorem of_apply {m : Run α} (answer : World → Except Failure α) (after : World → World)
    (known : ∀ w, m w = some (answer w, after w)) (silent : ∀ w, (after w).trace = w.trace)
    (good : ∀ w, w.Closureless trusted scope →
      (after w).Closureless trusted scope ∧ ∀ y, answer w = .ok y → P y) :
    m.Completes trusted limit scope P := by
  intro w bare
  obtain ⟨bare', has⟩ := good w bare
  exact ⟨answer w, after w, [], known w, bare', has, silent w, fun e member => by cases member⟩

theorem pure {x : α} (h : P x) : (Pure.pure x : Run α).Completes trusted limit scope P :=
  of_apply (fun _ => .ok x) id (pure_apply x) (fun _ => rfl) fun w bare =>
    ⟨bare, fun y same => by cases same; exact h⟩

theorem throw (e : Failure) :
    (MonadExcept.throw e : Run α).Completes trusted limit scope P :=
  of_apply (fun _ => .error e) id (throw_apply e) (fun _ => rfl) fun w bare =>
    ⟨bare, fun y same => by cases same⟩

theorem andThen {m : Run α} {f : α → Run β} (first : m.Completes trusted limit scope P)
    (next : ∀ x, P x → (f x).Completes trusted limit scope Q) :
    (m >>= f).Completes trusted limit scope Q := by
  intro w bare
  obtain ⟨answer, w₁, lines, ends, bare₁, has, wrote, shallow⟩ := first w bare
  rw [andThen_apply, ends]
  cases answer with
  | error e =>
    have none : ∀ y, (.error e : Except Failure β) = .ok y → Q y := fun y same => by cases same
    exact ⟨.error e, w₁, lines, rfl, bare₁, none, wrote, shallow⟩
  | ok x =>
    obtain ⟨answer', w₂, lines', ends', bare₂, has', wrote', shallow'⟩ :=
      next x (has x rfl) w₁ bare₁
    refine ⟨answer', w₂, lines' ++ lines, ends', bare₂, has', ?_, ?_⟩
    · rw [wrote', wrote, List.append_assoc]
    · intro e member
      rcases List.mem_append.1 member with later | earlier
      · exact shallow' e later
      · exact shallow e earlier

theorem record (r : Rules) {e : TraceEvent} (within : e.depth ≤ limit) :
    (Run.record r e).Completes trusted limit scope fun _ => True := by
  intro w bare
  refine ⟨.ok (), _, if r.tracing then [e] else [], record_apply r e w,
    ⟨bare.present, bare.visible⟩, fun _ _ => trivial, ?_, ?_⟩
  · cases r.tracing <;> rfl
  · intro e' member
    cases tracing : r.tracing with
    | false =>
      rw [tracing] at member
      cases member
    | true =>
      rw [tracing, if_pos rfl, List.mem_singleton] at member
      exact member ▸ within

theorem lookup (name : Text) :
    (Run.lookup scope name).Completes trusted limit scope (Value.Closureless trusted) := by
  refine of_apply _ id (lookup_apply scope name) (fun _ => rfl) fun w bare => ⟨bare, ?_⟩
  intro y same
  cases found : w.store.lookup scope name with
  | none =>
    rw [found] at same
    cases same
  | some x =>
    rw [found] at same
    cases same
    exact bare.visible name _ found

theorem define (name : Text) {x : Value} (h : x.Closureless trusted) :
    (Run.bind scope name x).Completes trusted limit scope fun _ => True := by
  refine of_apply (fun _ => .ok ()) _ (bind_apply scope name x) (fun _ => rfl) fun w bare => ?_
  refine ⟨⟨?_, ?_⟩, fun _ _ => trivial⟩
  · show scope < (w.store.bind scope name x).size
    rw [Store.size_bind]
    exact bare.present
  · intro n y found
    have found' : (w.store.bind scope name x).lookup scope n = some y := found
    rw [Store.lookup_bind_self bare.present] at found'
    split at found'
    · cases found'
      exact h
    · exact bare.visible n y found'

/-- Builtins make no closures. -/
theorem callBuiltin {r : Rules} (host : r.host.Closureless trusted) {b : Builtin}
    (fits : (Value.builtin b).Closureless trusted) {args : List Value}
    (given : ∀ x ∈ args, x.Closureless trusted) :
    (Run.callBuiltin r b args).Completes trusted limit scope (Value.Closureless trusted) := by
  refine of_apply _ _ (callBuiltin_apply r b args) (fun _ => rfl) fun w bare =>
    ⟨⟨bare.present, bare.visible⟩, ?_⟩
  have hosted : ∀ slot, b.op = .host slot →
      Meets (Value.Closureless trusted) (fun _ => True) (r.host slot b.name args) := by
    intro slot same
    have known : (Value.builtin b).isClosurelessPart trusted = true := fits.self
    obtain ⟨registration, name, op⟩ := b
    obtain rfl : op = .host slot := same
    exact meets_of_answer fun y => host slot known name args y given
  have meets := Primitive.meets_apply (Value.inherited_closureless trusted) (fun _ _ => trivial)
    given b.op hosted w.generator
  intro y same
  rw [same] at meets
  exact meets

/-- What is done in a new scope leaves the scope around it as it was. -/
theorem inScope {f : Frame} (under : f.parent = some scope)
    (bindings : ∀ name y, f.bindings.find? name = some y → y.Closureless trusted) {k : Nat → Run α}
    (body : ∀ inner, (k inner).Completes trusted limit inner P)
    (keeps : ∀ inner, Stays (fun w w' => w.store.Keeps inner w'.store) (k inner)) :
    (Run.pushFrame f >>= k).Completes trusted limit scope P := by
  intro w bare
  have bareInside : World.Closureless trusted w.store.size { w with store := w.store.push f } := by
    refine ⟨?_, ?_⟩
    · show w.store.size < (w.store.push f).size
      rw [Store.size_push]
      exact Nat.lt_succ_self _
    · intro name y found
      have found' : (w.store.push f).lookup w.store.size name = some y := found
      rw [Store.lookup_push under bare.present] at found'
      rcases Option.or_eq_some_iff.1 found' with inner | ⟨_, outer⟩
      · exact bindings name y inner
      · exact bare.visible name y outer
  obtain ⟨answer, w', lines, ends, _, has, wrote, shallow⟩ := body _ _ bareInside
  have untouched : w.store.Untouched w'.store := (keeps _ _ _ _ ends).untouched_of_push
  refine ⟨answer, w', lines, ?_, ⟨?_, ?_⟩, has, wrote, shallow⟩
  · rw [andThen_apply, pushFrame_apply]
    exact ends
  · exact Nat.lt_of_lt_of_le bare.present untouched.size_le
  · intro name y found
    rw [untouched.lookup bare.present] at found
    exact bare.visible name y found

end Completes
end Run

/-! ## Steps -/

section Steps

open Run

variable {trusted : Nat → Bool} {limit bound scope depth : Nat} {ev : Evaluator} {name : Text}

/-- The expression is evaluated without making closures, wherever that is, one level below. -/
def Evaluator.Serves (trusted : Nat → Bool) (limit depth : Nat) (ev : Evaluator) (x : Value) :
    Prop :=
  ∀ scope, (ev x scope (depth + 1)).Completes trusted limit scope (Value.Closureless trusted)

/-- No form of an expression without the keyword makes closures. -/
theorem form_ne_abstraction {v : Vocabulary} {head : Value} {form : Form}
    (avoids : head.Avoids v.closureForm) (named : headForm? v head = some (form, name)) :
    form ≠ .abstraction := by
  rintro rfl
  obtain ⟨rfl, isForm⟩ := headForm?_eq_some named
  have different : name != v.closureForm := avoids.self
  unfold Vocabulary.form? at isForm
  split at isForm
  · cases isForm
  · split at isForm
    · rename_i same
      exact bne_iff_ne.1 different same
    · split at isForm
      · cases isForm
      · split at isForm <;> cases isForm

/-- The expressions are nested less deep than the bound, and no closure is in them, nor the keyword
that makes closures; no closure is in the values. -/
def Traits.closureless (trusted : Nat → Bool) (keyword : Text) (bound : Nat) : Traits Unit :=
  .lasting (fun x => x.nesting < bound ∧ x.Closureless trusted ∧ x.Avoids keyword)
    (Value.Closureless trusted) (fun _ => True) (· ≠ .abstraction)

theorem Traits.sound_closureless (keyword : Text) :
    (closureless trusted keyword bound).Sound := by
  refine sound_lasting ?_ (Value.inherited_closureless trusted).boolean fun _ _ => trivial
  rintro xs ⟨less, plain, avoids⟩ x member
  exact ⟨Nat.lt_trans (Value.nesting_lt_of_mem member) less, plain.items x member,
    avoids.items x member⟩

/-- The parts of an expression are nested less deep than it is. -/
theorem Traits.whole_closureless {v : Vocabulary} {x : Value} (plain : x.Closureless trusted)
    (avoids : x.Avoids v.closureForm) :
    (closureless trusted v.closureForm x.nesting).Whole v () x := by
  cases x with
  | nil | symbol | scopedLet => trivial
  | quote x => exact (Value.each_quote.1 plain).2
  | list xs =>
    refine ⟨fun x member => ⟨Value.nesting_lt_of_mem member, plain.items x member,
      avoids.items x member⟩, ?_⟩
    rintro head args form n rfl named
    exact form_ne_abstraction (avoids.items head List.mem_cons_self) named
  | _ => exact plain

theorem Move.completes_run {r : Rules} (host : r.host.Closureless trusted)
    (keeps : ∀ x i d, Stays (fun w w' => w.store.Keeps i w'.store) (ev x i d)) {keyword : Text}
    (served : ∀ y, y.nesting < bound → y.Closureless trusted → y.Avoids keyword →
      ev.Serves trusted limit depth y)
    (within : depth ≤ limit) {a : Move} {c : Unit}
    (holds : a.Holds (.closureless trusted keyword bound) c) :
    (a.run r ev scope depth).Completes trusted limit scope (Value.Closureless trusted) := by
  cases a with
  | answer x => exact .pure holds
  | fail e => exact .throw e
  | lookup name => exact .lookup name
  | define name x =>
    have has : x.Closureless trusted := holds.2
    refine .andThen (.define name has) fun _ _ => .pure ?_
    refine (Value.inherited_closureless trusted).list.2 ?_
    simp [Value.closureless_symbol, has, (Value.inherited_closureless trusted).boolean]
  | close params body => exact absurd rfl holds.1
  | call b args => exact .andThen (.record r within) fun _ _ => .callBuiltin host holds.1 holds.2
  | block name bindings body =>
    obtain ⟨plain, less, bare, avoids⟩ := holds
    refine .inScope rfl ?_ (served body less bare avoids) fun inner => keeps body inner _
    intro n y found
    exact plain (n, y) (NameMap.find?_ofList_eq_some found)
  | enter params body home bindings => exact absurd holds.1 Value.not_closureless_closure

theorem Plan.completes_run {r : Rules} (host : r.host.Closureless trusted)
    (keeps : ∀ x i d, Stays (fun w w' => w.store.Keeps i w'.store) (ev x i d)) {keyword : Text}
    (served : ∀ y, y.nesting < bound → y.Closureless trusted → y.Avoids keyword →
      ev.Serves trusted limit depth y)
    (within : depth ≤ limit) {p : Plan} {c : Unit}
    (holds : p.Holds (.closureless trusted keyword bound) c) :
    (p.run r ev scope depth).Completes trusted limit scope (Value.Closureless trusted) := by
  induction holds with
  | move moves => exact Move.completes_run host keeps served within moves
  | eval text _ ih =>
    exact .andThen (served _ text.1 text.2.1 text.2.2 scope) fun y bare => ih rfl bare

/-- One step of evaluation.  The parts of an expression are nested less deep, so that they are
served one level below and still within the limit. -/
theorem completes_evalStep {r : Rules} (host : r.host.Closureless trusted)
    (keeps : ∀ x i d, Stays (fun w w' => w.store.Keeps i w'.store) (ev x i d)) {x : Value}
    (parts : ∀ y, y.nesting < x.nesting → y.Closureless trusted →
      y.Avoids r.vocabulary.closureForm → ev.Serves trusted limit depth y)
    (plain : x.Closureless trusted) (avoids : x.Avoids r.vocabulary.closureForm)
    (within : depth ≤ limit) :
    (evalStep r ev x scope depth).Completes trusted limit scope (Value.Closureless trusted) := by
  have holds := (Traits.sound_closureless r.vocabulary.closureForm).holds_plan
    (Traits.whole_closureless plain avoids) r.eagerIf
  rw [evalStep_eq]
  exact .andThen (.record r within) fun _ _ => Plan.completes_run host keeps parts within holds

end Steps

/-! ## Whole evaluations -/

/-- With as much fuel as the expression is nested deep, evaluation completes. -/
theorem eval_completes {trusted : Nat → Bool} {r : Rules} (host : r.host.Closureless trusted)
    {fuel : Nat} {x : Value} (enough : x.nesting < fuel) (plain : x.Closureless trusted)
    (avoids : x.Avoids r.vocabulary.closureForm) {depth limit : Nat}
    (within : depth + x.nesting ≤ limit) (scope : Nat) :
    (eval r fuel x scope depth).Completes trusted limit scope (Value.Closureless trusted) := by
  induction fuel generalizing x depth scope with
  | zero => exact absurd enough (Nat.not_lt_zero _)
  | succ fuel ih =>
    refine completes_evalStep host (eval_keeps r fuel) ?_ plain avoids (by omega)
    intro y less plain' avoids' inner
    exact ih (by omega) plain' avoids' (by omega) inner

/-- **Programs without closures end, within their own height.**  Let there be no closure in an
expression, nor in any value that is visible from a scope, and let the keyword that makes closures
occur nowhere in the expression.  Functions of the host may be there if they are trusted: when they
are given no closures, they answer none.  Whether both branches of a choice are evaluated or one:

* evaluation ends, by an answer or by a failure.  It needs to nest no deeper than the expression is
  nested itself; with more fuel than that it always ends, and always in the same way;
* where it is traced, no line is deeper than that below the depth at which it started;
* there is no closure in the answer, and none is visible from the scope afterwards. -/
theorem closureless_programs_end (r : Rules) (trusted : Nat → Bool)
    (host : r.host.Closureless trusted) (x : Value) (plain : x.Closureless trusted)
    (avoids : x.Avoids r.vocabulary.closureForm) (scope depth : Nat) (w : World)
    (present : scope < w.store.size)
    (visible : ∀ name y, w.store.lookup scope name = some y → y.Closureless trusted) :
    ∃ answer w' lines,
      (∀ fuel, x.nesting < fuel → eval r fuel x scope depth w = some (answer, w')) ∧
      w'.trace = lines ++ w.trace ∧ (∀ e ∈ lines, e.depth ≤ depth + x.nesting) ∧
      (∀ y, answer = .ok y → y.Closureless trusted) ∧
      ∀ name y, w'.store.lookup scope name = some y → y.Closureless trusted := by
  obtain ⟨answer, w', lines, ends, bare, has, wrote, shallow⟩ :=
    eval_completes host (Nat.lt_succ_self x.nesting) plain avoids (Nat.le_refl (depth + x.nesting))
      scope w ⟨present, visible⟩
  refine ⟨answer, w', lines, ?_, wrote, shallow, has, bare.visible⟩
  intro fuel enough
  exact eval_more_fuel r enough x scope depth w _ ends

/-- A block whose binding defines a name around it, and whose body hands that name to a function of
the host and to a builtin.  It is nested five deep, and the host answers the list of what it is
given. -/
theorem block_with_host_function_ends :
    let r : Rules := ⟨.words, true, false, true, fun _ _ args => .ok (.list args)⟩
    let global : Frame := { Store.globalFrame with
      bindings := NameMap.ofList
        [("f", .builtin ⟨0, "f", .host 0⟩), ("car", .builtin ⟨0, "car", .first⟩)] }
    let w : World := ⟨⟨#[global], 1⟩, ⟨0⟩, []⟩
    let definition : Value := .list [.symbol "var", .symbol "x", .quote (.symbol "a")]
    let x : Value := .list [.symbol "scoped-let", .list [.list [.symbol "y", definition]],
      .list [.symbol "f", .list [.symbol "car", .symbol "y"], .symbol "x"]]
    (∀ name y, w.store.lookup 0 name = some y → y.Closureless fun _ => true) ∧ x.nesting = 5 ∧
      ∃ w', (∀ fuel, 5 < fuel →
          eval r fuel x 0 0 w = some (.ok (.list [.symbol "x", .symbol "a"]), w')) ∧
        (∀ e ∈ w'.trace, e.depth ≤ 5) ∧
        ∀ name y, w'.store.lookup 0 name = some y → y.Closureless fun _ => true := by
  intro r global w definition x
  have host : r.host.Closureless fun _ => true := by
    intro slot _ name args y given answer
    cases answer
    exact (Value.inherited_closureless _).list.2 given
  have all : (w.store.visible 0).entries.all
      (fun e => decide (e.2.Closureless fun _ => true)) = true := by decide
  have visible : ∀ name y, w.store.lookup 0 name = some y → y.Closureless fun _ => true := by
    intro name y found
    rw [← Store.find?_visible] at found
    exact of_decide_eq_true (List.all_eq_true.1 all _ (NameMap.mem_entries_of_find? found))
  obtain ⟨answer, w', lines, ends, wrote, shallow, _, after⟩ :=
    closureless_programs_end r (fun _ => true) host x (by decide) (by decide) 0 0 w (by decide)
      visible
  have known : (eval r 6 x 0 0 w).map Prod.fst =
      some (.ok (.list [.symbol "x", .symbol "a"])) := rfl
  rw [ends 6 (by decide)] at known
  obtain rfl := Option.some.inj known
  refine ⟨visible, rfl, w', ends, ?_, after⟩
  intro e member
  rw [wrote, List.append_nil] at member
  exact Nat.le_trans (shallow e member) (by decide)

end Argot
