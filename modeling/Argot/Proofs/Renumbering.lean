import Mathlib.Logic.Equiv.Basic
import Argot.Proofs.FlatMachine

set_option autoImplicit false

/-!
# Other numbers for registrations

The number of a registration stands for its identity: it tells builtins of one name apart, and
that is all that is ever done with it.  So if the builtins that a flat machine knows are numbered
otherwise, and the later registrations too, all that it does is what it did before, under the
other numbers (`FlatMachine.perform_renumber`), as long as the functions of the host do not look
at numbers either (`Host.Respects`).

An interpreter that takes turns with another one gets other numbers than it would get alone.
There is a permutation that takes the ones to the others and keeps all numbers that were given
before (`exists_renumbering`), and under it the flat machine makes the same of the conversation as
of its own operations alone (`FlatMachine.performAll_renumber`).
-/

namespace Argot

/-! ## Values and failures -/

namespace Value

mutual

/-- The value with its builtins numbered otherwise. -/
def renumber (π : Equiv.Perm Nat) : Value → Value
  | .nil => .nil
  | .quote form => .quote (form.renumber π)
  | .symbol name => .symbol name
  | .number x => .number x
  | .boolean b => .boolean b
  | .string s => .string s
  | .list items => .list (renumberAll π items)
  | .builtin b => .builtin { b with registration := π b.registration }
  | .closure params body home => .closure (params.renumber π) (body.renumber π) home
  | .scopedLet bindings body => .scopedLet (bindings.renumber π) (body.renumber π)

/-- The values with their builtins numbered otherwise. -/
def renumberAll (π : Equiv.Perm Nat) : List Value → List Value
  | [] => []
  | x :: xs => x.renumber π :: renumberAll π xs

end

mutual

/-- The numbers of the builtins in a value. -/
def registrationsIn : Value → List Nat
  | .builtin b => [b.registration]
  | .quote form => form.registrationsIn
  | .list items => registrationsInAll items
  | .closure params body _ => params.registrationsIn ++ body.registrationsIn
  | .scopedLet bindings body => bindings.registrationsIn ++ body.registrationsIn
  | .nil | .symbol _ | .number _ | .boolean _ | .string _ => []

/-- The numbers of the builtins in values. -/
def registrationsInAll : List Value → List Nat
  | [] => []
  | x :: xs => x.registrationsIn ++ registrationsInAll xs

end

theorem renumberAll_eq_map (π : Equiv.Perm Nat) (xs : List Value) :
    renumberAll π xs = xs.map (renumber π) := by
  induction xs with
  | nil => rfl
  | cons x xs ih => rw [renumberAll, ih, List.map_cons]

end Value

/-- The failure with the builtins that it is about numbered otherwise. -/
def Failure.renumber (π : Equiv.Perm Nat) : Failure → Failure
  | .unsupported x => .unsupported (x.renumber π)
  | .notCallable head => .notCallable (head.renumber π)
  | .paramsNotList params => .paramsNotList (params.renumber π)
  | .paramNotSymbol params => .paramNotSymbol (params.renumber π)
  | .conditionNotBoolean name x => .conditionNotBoolean name (x.renumber π)
  | .targetNotSymbol name x => .targetNotSymbol name (x.renumber π)
  | .bindingsNotList name x => .bindingsNotList name (x.renumber π)
  | .bindingNotPair name x => .bindingNotPair name (x.renumber π)
  | .bindingNotSymbol name x => .bindingNotSymbol name (x.renumber π)
  | .notNumber name x => .notNumber name (x.renumber π)
  | .notBoolean name x => .notBoolean name (x.renumber π)
  | .notList name x => .notList name (x.renumber π)
  | .boundNotNumber name x => .boundNotNumber name (x.renumber π)
  | .boundOutOfRange name x => .boundOutOfRange name (x.renumber π)
  | e => e

/-- What comes of something, with the builtins in it numbered otherwise. -/
def renumberResult {α β : Type} (π : Equiv.Perm Nat) (ρ : α → β) :
    Except Failure α → Except Failure β
  | .ok x => .ok (ρ x)
  | .error e => .error (e.renumber π)

/-- The outcome with its builtins numbered otherwise. -/
def Outcome.renumber (π : Equiv.Perm Nat) : Outcome → Outcome :=
  renumberResult π (Value.renumber π)

/-- The answer with its builtins numbered otherwise. -/
def Answer.renumber (π : Equiv.Perm Nat) : Answer → Answer
  | .ok outcomes => .ok (outcomes.map (Outcome.renumber π))
  | .error e => .error e

namespace Value

variable {π : Equiv.Perm Nat}

mutual

/-- No builtin is written in program text. -/
theorem renumber_of_isSource : (x : Value) → x.isSource = true → x.renumber π = x
  | .quote x, source => by rw [renumber, renumber_of_isSource x source]
  | .list xs, source => by rw [renumber, renumberAll_of_allSource xs source]
  | .symbol _, _ | .number _, _ | .boolean _, _ | .string _, _ => rfl

theorem renumberAll_of_allSource : (xs : List Value) → allSource xs = true →
    renumberAll π xs = xs
  | [], _ => rfl
  | x :: xs, source => by
    rw [allSource, Bool.and_eq_true] at source
    rw [renumberAll, renumber_of_isSource x source.1, renumberAll_of_allSource xs source.2]

end

mutual

/-- Only the numbers that are there count. -/
theorem renumber_of_fixed : (x : Value) → (∀ i ∈ x.registrationsIn, π i = i) → x.renumber π = x
  | .nil, _ | .symbol _, _ | .number _, _ | .boolean _, _ | .string _, _ => rfl
  | .builtin b, fixed => by rw [renumber, fixed _ (List.mem_singleton.2 rfl)]
  | .quote x, fixed => by rw [renumber, renumber_of_fixed x fixed]
  | .list xs, fixed => by rw [renumber, renumberAll_of_fixed xs fixed]
  | .closure p b _, fixed => by
    obtain ⟨params, body⟩ := List.forall_mem_append.1 fixed
    rw [renumber, renumber_of_fixed p params, renumber_of_fixed b body]
  | .scopedLet p b, fixed => by
    obtain ⟨bindings, body⟩ := List.forall_mem_append.1 fixed
    rw [renumber, renumber_of_fixed p bindings, renumber_of_fixed b body]

theorem renumberAll_of_fixed : (xs : List Value) → (∀ i ∈ registrationsInAll xs, π i = i) →
    renumberAll π xs = xs
  | [], _ => rfl
  | x :: xs, fixed => by
    obtain ⟨first, rest⟩ := List.forall_mem_append.1 fixed
    rw [renumberAll, renumber_of_fixed x first, renumberAll_of_fixed xs rest]

end

mutual

/-- Numbers have nothing to do with the scopes that closures remember. -/
theorem homeless_renumber : (x : Value) → (x.renumber π).homeless = x.homeless
  | .nil | .symbol _ | .number _ | .boolean _ | .string _ | .builtin _ => rfl
  | .quote x => homeless_renumber x
  | .list xs => allHomeless_renumberAll xs
  | .closure p b _ => by
    rw [renumber, homeless, homeless, homeless_renumber p, homeless_renumber b]
  | .scopedLet p b => by
    rw [renumber, homeless, homeless, homeless_renumber p, homeless_renumber b]

theorem allHomeless_renumberAll : (xs : List Value) →
    allHomeless (renumberAll π xs) = allHomeless xs
  | [] => rfl
  | x :: xs => by
    rw [renumberAll, allHomeless, allHomeless, homeless_renumber x, allHomeless_renumberAll xs]

end

mutual

/-- Numbering back and forth changes nothing. -/
theorem renumber_symm_renumber : (x : Value) → (x.renumber π.symm).renumber π = x
  | .nil | .symbol _ | .number _ | .boolean _ | .string _ => rfl
  | .builtin b => by rw [renumber, renumber, π.apply_symm_apply]
  | .quote x => by rw [renumber, renumber, renumber_symm_renumber x]
  | .list xs => by rw [renumber, renumber, renumberAll_symm_renumberAll xs]
  | .closure p b _ => by
    rw [renumber, renumber, renumber_symm_renumber p, renumber_symm_renumber b]
  | .scopedLet p b => by
    rw [renumber, renumber, renumber_symm_renumber p, renumber_symm_renumber b]

theorem renumberAll_symm_renumberAll :
    (xs : List Value) → renumberAll π (renumberAll π.symm xs) = xs
  | [] => rfl
  | x :: xs => by
    rw [renumberAll, renumberAll, renumber_symm_renumber x, renumberAll_symm_renumberAll xs]

end

end Value

/-! ## Builtins -/

/-- Names and scopes are what they are; the numbers of builtins are what the permutation says. -/
def Dictionary.numbering (π : Equiv.Perm Nat) : Dictionary where
  name n := n
  name_injective same := same
  builtin b b' := b' = { b with registration := π b.registration }
  builtin_name := by
    rintro b _ rfl
    rfl
  builtin_op := by
    rintro b _ rfl
    rfl
  builtin_unique := by
    rintro ⟨number, name, op⟩ _ ⟨number', name', op'⟩ _ rfl rfl
    simp only [Builtin.mk.injEq, π.injective.eq_iff]
  written := Eq

section Builtins

variable {π : Equiv.Perm Nat}

namespace Value

mutual

theorem matches_renumber : (x : Value) → x.Matches (.numbering π) Eq (x.renumber π)
  | .nil => .nil
  | .quote x => .quote (matches_renumber x)
  | .symbol n => .symbol n
  | .number x => .number x
  | .boolean b => .boolean b
  | .string s => .string s
  | .list xs => .list (matchesAll_renumber xs)
  | .builtin _ => .builtin rfl
  | .closure p b none => .closure (matches_renumber p) (matches_renumber b) .none
  | .closure p b (some _) => .closure (matches_renumber p) (matches_renumber b) (.some rfl)
  | .scopedLet p b => .scopedLet (matches_renumber p) (matches_renumber b)

theorem matchesAll_renumber : (xs : List Value) →
    MatchesAll (.numbering π) Eq xs (renumberAll π xs)
  | [] => .nil
  | x :: xs => .cons (matches_renumber x) (matchesAll_renumber xs)

end

mutual

theorem Matches.eq_renumber : (x : Value) → {y : Value} → x.Matches (.numbering π) Eq y →
    y = x.renumber π
  | .nil, _, .nil => rfl
  | .quote x, _, .quote inner => by rw [Matches.eq_renumber x inner, renumber]
  | .symbol _, _, .symbol _ => rfl
  | .number _, _, .number _ => rfl
  | .boolean _, _, .boolean _ => rfl
  | .string _, _, .string _ => rfl
  | .list xs, _, .list each => by rw [MatchesAll.eq_renumberAll xs each, renumber]
  | .builtin _, _, .builtin same => by rw [same, renumber]
  | .closure p b _, _, .closure params body .none => by
    rw [Matches.eq_renumber p params, Matches.eq_renumber b body, renumber]
  | .closure p b _, _, .closure params body (.some rfl) => by
    rw [Matches.eq_renumber p params, Matches.eq_renumber b body, renumber]
  | .scopedLet p b, _, .scopedLet bindings body => by
    rw [Matches.eq_renumber p bindings, Matches.eq_renumber b body, renumber]

theorem MatchesAll.eq_renumberAll : (xs : List Value) → {ys : List Value} →
    MatchesAll (.numbering π) Eq xs ys → ys = renumberAll π xs
  | [], _, .nil => rfl
  | x :: xs, _, .cons first rest => by
    rw [Matches.eq_renumber x first, MatchesAll.eq_renumberAll xs rest, renumberAll]

end

end Value

theorem Failure.Matches.eq_renumber {e e' : Failure} (h : e.Matches (.numbering π) Eq e') :
    e' = e.renumber π := by
  cases h with
  | unsupported about | notCallable about | paramsNotList about | paramNotSymbol about =>
    rw [about.eq_renumber, Failure.renumber]
  | conditionNotBoolean _ about | targetNotSymbol _ about | bindingsNotList _ about
  | bindingNotPair _ about | bindingNotSymbol _ about | notNumber _ about | notBoolean _ about
  | notList _ about | boundNotNumber _ about | boundOutOfRange _ about =>
    rw [about.eq_renumber, Failure.renumber]
    rfl
  | _ => rfl

theorem Failure.matches_renumber (e : Failure) : e.Matches (.numbering π) Eq (e.renumber π) := by
  have about := @Value.matches_renumber π
  cases e <;> constructor <;> exact about _

theorem Alike.eq_renumber {x y : Outcome}
    (h : Alike (.numbering π) Eq (Value.Matches (.numbering π) Eq) x y) :
    y = Outcome.renumber π x := by
  cases h with
  | value related =>
    rw [related.eq_renumber]
    rfl
  | failure about =>
    rw [about.eq_renumber]
    rfl

/-- Numbers do not show in print. -/
theorem Answer.printed_renumber (v : Vocabulary) (answer : Answer) :
    Answer.printed v (answer.renumber π) = Answer.printed v answer := by
  have plain : (Dictionary.numbering π).Plain := fun _ => rfl
  cases answer with
  | error e => rfl
  | ok outcomes =>
    refine congrArg Except.ok ((List.map_map ..).trans (List.map_congr_left fun outcome _ => ?_))
    cases outcome with
    | ok x => exact congrArg Except.ok (x.matches_renumber.print_eq plain v)
    | error e =>
      have kind := (@Failure.matches_renumber π e).kind_eq
      have message := (@Failure.matches_renumber π e).message_eq plain v
      exact congrArg Except.error (congrArg₂ Report.diagnosis kind message)

/-- The functions of the host do not look at the numbers of builtins. -/
def Host.Respects (π : Equiv.Perm Nat) (host : Host) : Prop :=
  ∀ slot name args,
    host slot name (args.map (Value.renumber π)) = Outcome.renumber π (host slot name args)

/-- Primitives compare builtins, and hand them on, but do not look at their numbers. -/
theorem Primitive.apply_renumber {host : Host} (blind : host.Respects π) (op : Primitive)
    (name : Text) (args : List Value) (g : Generator) :
    op.apply host name (args.map (Value.renumber π)) g =
      (Outcome.renumber π (op.apply host name args g).1, (op.apply host name args g).2) := by
  have matching := @Value.matchesAll_renumber π args
  rw [Value.renumberAll_eq_map] at matching
  have hosts (slot : Nat) : Alike (.numbering π) Eq (Value.Matches (.numbering π) Eq)
      (host slot name args) (host slot name (args.map (Value.renumber π))) := by
    rw [blind]
    cases host slot name args with
    | ok x => exact .value (Value.matches_renumber x)
    | error e => exact .failure e.matches_renumber
  obtain ⟨answers, generators⟩ := Primitive.alike_apply name g op matching fun slot _ => hosts slot
  exact Prod.ext answers.eq_renumber generators

end Builtins

/-! ## Maps of names -/

namespace NameMap

variable {α β : Type}

theorem map_insert (f : Text → α → β) (m : NameMap α) (name : Text) (a : α) :
    (m.insert name a).map f = (m.map f).insert name (f name a) := by
  apply ext_find?
  intro n
  rw [find?_map, find?_insert, find?_insert, find?_map]
  by_cases same : n = name
  · rw [if_pos same, if_pos same, same, Option.map_some]
  · rw [if_neg same, if_neg same]

theorem map_ofList (f : Text → α → β) (entries : List (Text × α)) :
    (ofList entries).map f = ofList (entries.map fun e => (e.1, f e.1 e.2)) := by
  have filled : ∀ m : NameMap α,
      (entries.foldl (fun m e => m.insert e.1 e.2) m).map f =
        (entries.map fun e => (e.1, f e.1 e.2)).foldl (fun m e => m.insert e.1 e.2) (m.map f) := by
    induction entries with
    | nil => exact fun _ => rfl
    | cons e rest ih =>
      intro m
      rw [List.foldl_cons, ih, map_insert]
      rfl
  exact filled ∅

theorem map_overlay (f : Text → α → β) (inner outer : NameMap α) :
    (inner.overlay outer).map f = (inner.map f).overlay (outer.map f) := by
  apply ext_find?
  intro n
  rw [find?_map, find?_overlay, find?_overlay, find?_map, find?_map, Option.map_or]

end NameMap

/-! ## Flat evaluation -/

/-- The world with its builtins numbered otherwise. -/
def FlatWorld.renumber (π : Equiv.Perm Nat) (w : FlatWorld) : FlatWorld :=
  { w with names := w.names.map fun _ x => x.renumber π }

namespace FlatRun

variable {π : Equiv.Perm Nat} {α β γ δ : Type} {ρ : α → β}

/-- In a world that is numbered otherwise, the second run does what the first one does, and its
answer is what `ρ` makes of the answer of the first one. -/
def Renumbers (π : Equiv.Perm Nat) (ρ : α → β) (m : FlatRun α) (m' : FlatRun β) : Prop :=
  ∀ w, m' (w.renumber π) = (m w).map fun out => (renumberResult π ρ out.1, out.2.renumber π)

namespace Renumbers

theorem exhausted : Renumbers π ρ FlatRun.exhausted FlatRun.exhausted := fun _ => rfl

theorem pure (x : α) : Renumbers π ρ (Pure.pure x) (Pure.pure (ρ x)) := fun _ => rfl

theorem throw (e : Failure) :
    Renumbers π ρ (MonadExcept.throw e) (MonadExcept.throw (e.renumber π)) := fun _ => rfl

theorem andThen {σ : γ → δ} {m : FlatRun α} {m' : FlatRun β} {f : α → FlatRun γ}
    {f' : β → FlatRun δ} (h : Renumbers π ρ m m') (next : ∀ x, Renumbers π σ (f x) (f' (ρ x))) :
    Renumbers π σ (m >>= f) (m' >>= f') := by
  intro w
  rw [Run.andThen_apply, Run.andThen_apply, h w]
  cases m w with
  | none => rfl
  | some out =>
    obtain ⟨answer, w₁⟩ := out
    cases answer with
    | error e => rfl
    | ok x => exact next x w₁

theorem lookup (name : Text) :
    Renumbers π (Value.renumber π) (FlatRun.lookup name) (FlatRun.lookup name) := by
  intro w
  have found : (w.renumber π).names.find? name = (w.names.find? name).map (Value.renumber π) :=
    NameMap.find?_map _ _ _
  rw [FlatRun.lookup, FlatRun.lookup, found]
  cases w.names.find? name <;> rfl

theorem define (name : Text) (x : Value) :
    Renumbers π id (FlatRun.define name x) (FlatRun.define name (x.renumber π)) := by
  intro w
  rw [FlatRun.define, FlatRun.define, Option.map_some]
  show some (_, FlatWorld.mk ((w.names.map _).insert _ _) _) =
    some (_, FlatWorld.mk ((w.names.insert _ _).map _) _)
  rw [NameMap.map_insert]
  rfl

theorem callBuiltin {r : Rules} (blind : r.host.Respects π) (b : Builtin) (args : List Value) :
    Renumbers π (Value.renumber π) (FlatRun.callBuiltin r b args)
      (FlatRun.callBuiltin r { b with registration := π b.registration }
        (args.map (Value.renumber π))) := by
  intro w
  rw [FlatRun.callBuiltin, FlatRun.callBuiltin]
  simp only [Primitive.apply_renumber blind]
  rfl

theorem inCopy {m : FlatRun α} {m' : FlatRun β} (h : Renumbers π ρ m m')
    (bindings : List (Text × Value)) :
    Renumbers π ρ (FlatRun.inCopy bindings m)
      (FlatRun.inCopy (bindings.map (Prod.map id (Value.renumber π))) m') := by
  intro w
  let inner : FlatWorld := { w with names := (NameMap.ofList bindings).overlay w.names }
  have copied : { w.renumber π with
      names := (NameMap.ofList (bindings.map (Prod.map id (Value.renumber π)))).overlay
        (w.renumber π).names } = inner.renumber π := by
    show _ = FlatWorld.mk (NameMap.map _ _) _
    rw [NameMap.map_overlay, NameMap.map_ofList]
    rfl
  rw [FlatRun.inCopy, FlatRun.inCopy, copied, h inner]
  cases m inner <;> rfl

end Renumbers

end FlatRun

section Steps

open FlatRun

variable {π : Equiv.Perm Nat} {r : Rules} {ev : FlatEvaluator} {c : Unit}

/-- The evaluator does not look at the numbers of builtins. -/
def FlatEvaluator.Respects (π : Equiv.Perm Nat) (ev : FlatEvaluator) : Prop :=
  ∀ x, Renumbers π (Value.renumber π) (ev x) (ev (x.renumber π))

/-- Expressions and values that are the same but for the numbers of builtins. -/
abbrev Likeness.renumbered (π : Equiv.Perm Nat) : Likeness Unit :=
  .matching (.numbering π) Eq fun _ => Eq

theorem Likeness.coherent_renumbered (v : Vocabulary) : (renumbered π).Coherent v v :=
  coherent_matching (fun _ => Eq) (fun _ => rfl) Eq.trans (fun _ _ _ => id) (fun _ _ _ => id)
    fun _ => rfl

theorem Likeness.Entries.eq_renumber {es es' : List (Text × Value)}
    (entries : (Likeness.renumbered π).Entries c es es') :
    es' = es.map (Prod.map id (Value.renumber π)) := by
  induction entries with
  | nil => rfl
  | @cons e e' _ _ first _ ih =>
    have renumbered : e' = Prod.map id (Value.renumber π) e :=
      Prod.ext first.1 (Value.Matches.eq_renumber e.2 first.2)
    rw [List.map_cons, ih, renumbered]

theorem Move.renumbers_flat (host : r.host.Respects π) (blind : ev.Respects π) {a a' : Move}
    (alike : a.Alike (.renumbered π) c a') :
    Renumbers π (Value.renumber π) (a.flat r ev) (a'.flat r ev) := by
  cases alike with
  | answer values =>
    obtain rfl := Value.Matches.eq_renumber _ values
    exact .pure _
  | fail failures =>
    obtain rfl := Failure.Matches.eq_renumber failures
    exact .throw _
  | lookup n => exact .lookup n
  | @define n x _ _ values =>
    obtain rfl := Value.Matches.eq_renumber _ values
    exact (Renumbers.define n x).andThen fun _ => .pure (Value.list [.symbol n, x, .boolean true])
  | @close params _ body _ _ paramTexts bodies =>
    obtain rfl := Value.Matches.eq_renumber _ paramTexts
    obtain rfl := Value.Matches.eq_renumber _ bodies
    exact .pure (Value.closure params body none)
  | @call b _ args _ functions values =>
    have same := Value.MatchesAll.eq_renumberAll _ (Value.matchesAll_iff.2 values)
    rw [Value.renumberAll_eq_map] at same
    cases functions with
    | builtin numbered =>
      subst same numbered
      exact .callBuiltin host b args
  | @block n bindings _ body _ entries bodies =>
    obtain rfl := entries.eq_renumber
    obtain rfl := Value.Matches.eq_renumber _ bodies
    exact (blind body).inCopy bindings
  | @enter _ _ body _ _ _ bindings _ functions entries =>
    obtain rfl := entries.eq_renumber
    cases functions with
    | closure _ bodies _ =>
      obtain rfl := Value.Matches.eq_renumber _ bodies
      exact (blind body).inCopy bindings

theorem Plan.renumbers_flat (host : r.host.Respects π) (blind : ev.Respects π) {p p' : Plan}
    (alike : p.Alike (.renumbered π) c p') :
    Renumbers π (Value.renumber π) (p.flat r ev) (p'.flat r ev) := by
  induction alike with
  | move moves => exact Move.renumbers_flat host blind moves
  | eval texts _ ih =>
    obtain rfl := Value.Matches.eq_renumber _ texts
    exact (blind _).andThen fun y => ih rfl (Value.matches_renumber y)

theorem renumbers_flatStep (host : r.host.Respects π) (blind : ev.Respects π) :
    FlatEvaluator.Respects π (flatStep r ev) := by
  intro x
  have alike := (Likeness.coherent_renumbered r.vocabulary).alike_plan (c := ())
    (whole_matching (fun _ => Eq) (fun _ _ => id) (@Value.matches_renumber π x)) r.eagerIf
  rw [flatStep_eq, flatStep_eq]
  exact Plan.renumbers_flat host blind alike

/-- Evaluation does not look at the numbers of builtins. -/
theorem renumbers_flatEval (host : r.host.Respects π) (fuel : Nat) :
    FlatEvaluator.Respects π (flatEval r fuel) := by
  induction fuel with
  | zero => exact fun _ => .exhausted
  | succ fuel ih => exact renumbers_flatStep host ih

theorem flatEvalAll_renumber (host : r.host.Respects π) (fuel : Nat) (xs : List Value)
    (w : FlatWorld) :
    flatEvalAll r fuel (xs.map (Value.renumber π)) (w.renumber π) =
      (flatEvalAll r fuel xs w).map
        fun out => (out.1.map (Outcome.renumber π), out.2.renumber π) := by
  induction xs generalizing w with
  | nil => rfl
  | cons x xs ih =>
    rw [List.map_cons, flatEvalAll, flatEvalAll, renumbers_flatEval host fuel x w]
    cases flatEval r fuel x w with
    | none => rfl
    | some out =>
      rw [Option.map_some, Option.bind_some, Option.bind_some, ih, Option.map_map, Option.map_map]
      rfl

end Steps

/-! ## Flat machines -/

section Machines

variable {π : Equiv.Perm Nat}

/-- The operation with the builtins that it brings in numbered otherwise. -/
def Operation.renumber (π : Equiv.Perm Nat) : Operation → Operation
  | .run fuel text => .run fuel text
  | .clear => .clear
  | .addGlobal name x => .addGlobal name (x.renumber π)
  | .addFunction name slot => .addFunction name slot

theorem Operation.registrations_renumber (op : Operation) :
    (op.renumber π).registrations = op.registrations := by
  cases op <;> rfl

theorem Operation.homeless_renumber (op : Operation) :
    (op.renumber π).homeless = op.homeless := by
  cases op with
  | addGlobal name x => exact x.homeless_renumber
  | _ => rfl

/-- The numbers of the builtins that the operation brings in. -/
def Operation.registrationsIn : Operation → List Nat
  | .addGlobal _ x => x.registrationsIn
  | .run _ _ | .clear | .addFunction _ _ => []

theorem Operation.renumber_of_fixed (op : Operation)
    (fixed : ∀ i ∈ op.registrationsIn, π i = i) : op.renumber π = op := by
  cases op with
  | addGlobal name x => exact congrArg (Operation.addGlobal name) (x.renumber_of_fixed fixed)
  | _ => rfl

theorem Operation.numbered_renumber (number : Nat) (ops : List Operation) :
    numbered number (ops.map (Operation.renumber π)) =
      (numbered number ops).map (Prod.map id (Operation.renumber π)) := by
  induction ops generalizing number with
  | nil => rfl
  | cons op rest ih =>
    rw [List.map_cons, numbered, numbered, registrations_renumber, ih]
    rfl

theorem Operation.renumber_symm_renumber (op : Operation) :
    (op.renumber π.symm).renumber π = op := by
  cases op with
  | addGlobal name x => exact congrArg (Operation.addGlobal name) (Value.renumber_symm_renumber x)
  | _ => rfl

namespace FlatMachine

/-- The machine with its builtins numbered otherwise. -/
def renumber (π : Equiv.Perm Nat) (f : FlatMachine) : FlatMachine :=
  { f with world := f.world.renumber π }

/-- What one operation comes to, with all builtins numbered otherwise. -/
def renumberStep (π : Equiv.Perm Nat) (out : Option Answer × FlatMachine) :
    Option Answer × FlatMachine :=
  (out.1.map (Answer.renumber π), out.2.renumber π)

theorem run_renumber {f : FlatMachine} (host : f.rules.host.Respects π) (fuel : Nat)
    (text : Text) :
    (f.renumber π).run fuel text =
      (f.run fuel text).map fun out => (Answer.renumber π out.1, out.2.renumber π) := by
  have rules : (f.renumber π).rules = f.rules := rfl
  rw [run, run, rules]
  cases read : readText f.rules.vocabulary text with
  | error e => rfl
  | ok xs =>
    have evaluated := flatEvalAll_renumber host fuel xs f.world
    rw [← Value.renumberAll_eq_map,
      Value.renumberAll_of_allSource xs (allSource_of_readText read)] at evaluated
    show (flatEvalAll f.rules fuel xs (f.world.renumber π)).map _ =
      ((flatEvalAll f.rules fuel xs f.world).map _).map _
    rw [evaluated, Option.map_map, Option.map_map]
    rfl

theorem define_renumber (f : FlatMachine) (name : Text) (x : Value) :
    (f.define name x).renumber π = (f.renumber π).define name (x.renumber π) := by
  show FlatMachine.mk _ _ ⟨NameMap.map _ (NameMap.insert _ _ _), _⟩ = _
  rw [NameMap.map_insert]
  rfl

theorem registered_renumber (number : Nat) (primitives : NameMap Primitive) :
    (registered number primitives).map (fun _ x => x.renumber π) =
      registered (π number) primitives := by
  apply NameMap.ext_find?
  intro name
  rw [registered, registered, NameMap.find?_map, NameMap.find?_map, NameMap.find?_map,
    Option.map_map]
  rfl

/-- An operation does the same if all builtins are numbered otherwise, the one that it may
register among them. -/
theorem perform_renumber {f : FlatMachine} (host : f.rules.host.Respects π) (op : Operation)
    {b n : Nat} (number : op.registrations ≠ 0 → π b = n) :
    (f.renumber π).perform (op.renumber π) n = (f.perform op b).map (renumberStep π) := by
  cases op with
  | run fuel text =>
    show ((f.renumber π).run fuel text).map _ = ((f.run fuel text).map _).map _
    rw [run_renumber host, Option.map_map, Option.map_map]
    rfl
  | clear =>
    have bound := @registered_renumber π b f.primitives
    rw [number Nat.one_ne_zero] at bound
    show some (none, FlatMachine.mk _ _ ⟨registered n f.primitives, _⟩) =
      some (none, FlatMachine.mk _ _ ⟨NameMap.map _ (registered b f.primitives), _⟩)
    rw [bound]
    rfl
  | addGlobal name x => exact congrArg (fun f => some (none, f)) (define_renumber f name x).symm
  | addFunction name slot =>
    obtain rfl := number Nat.one_ne_zero
    refine congrArg (fun f => some (none, f)) (Eq.symm ?_)
    exact define_renumber { f with primitives := f.primitives.insert name (.host slot) } name
      (.builtin ⟨b, name, .host slot⟩)

/-- No operation changes the rules. -/
theorem rules_perform {f : FlatMachine} {op : Operation} {number : Nat}
    {out : Option Answer × FlatMachine} (ends : f.perform op number = some out) :
    out.2.rules = f.rules := by
  cases op with
  | run fuel text =>
    obtain ⟨ran, answered, rfl⟩ := Option.map_eq_some_iff.1 ends
    unfold run at answered
    split at answered
    · cases answered
      rfl
    · obtain ⟨_, _, rfl⟩ := Option.map_eq_some_iff.1 answered
      rfl
  | clear | addGlobal | addFunction =>
    cases ends
    rfl

end FlatMachine

theorem FlatMachine.rules_performAll {steps : List (Nat × Operation)} {f : FlatMachine}
    {out : List (Option Answer) × FlatMachine} (ends : performAll steps f = some out) :
    out.2.rules = f.rules := by
  induction steps generalizing f out with
  | nil =>
    cases ends
    rfl
  | cons step rest ih =>
    obtain ⟨out₁, performed, later⟩ := Option.bind_eq_some_iff.1 ends
    obtain ⟨outs, ended, rfl⟩ := Option.map_eq_some_iff.1 later
    exact (ih ended).trans (rules_perform performed)

/-- Two steps with the same operation, where a registration gets the number that the permutation
says. -/
def Renumbered (π : Equiv.Perm Nat) (step step' : Nat × Operation) : Prop :=
  step'.2 = step.2 ∧ (step.2.registrations ≠ 0 → π step.1 = step'.1)

/-- What operations come to, with all builtins numbered otherwise. -/
def FlatMachine.renumberSteps (π : Equiv.Perm Nat) (out : List (Option Answer) × FlatMachine) :
    List (Option Answer) × FlatMachine :=
  (out.1.map (Option.map (Answer.renumber π)), out.2.renumber π)

/-- A sequence of operations does the same if all builtins are numbered otherwise. -/
theorem FlatMachine.performAll_renumber {f : FlatMachine} (host : f.rules.host.Respects π)
    {steps steps' : List (Nat × Operation)} (each : List.Forall₂ (Renumbered π) steps steps') :
    performAll steps' (f.renumber π) =
      (performAll (steps.map (Prod.map id (Operation.renumber π.symm))) f).map
        (renumberSteps π) := by
  induction each generalizing f with
  | nil => rfl
  | @cons step step' steps steps' first _ ih =>
    obtain ⟨b, _⟩ := step
    obtain ⟨n, op⟩ := step'
    obtain ⟨rfl, number⟩ := first
    have performed := @perform_renumber π f host (op.renumber π.symm) b n
      (by rwa [Operation.registrations_renumber])
    rw [Operation.renumber_symm_renumber] at performed
    rw [performAll_cons, performed, List.map_cons, Prod.map_apply, performAll_cons, id]
    cases ends : f.perform (op.renumber π.symm) b with
    | none => rfl
    | some out =>
      have later := @ih out.2 (by rwa [rules_perform ends])
      simp only [Option.map_some, Option.bind_some, Option.map_map]
      show (performAll steps' (out.2.renumber π)).map _ = _
      rw [later, Option.map_map]
      rfl

/-- The numbers that operations get alone need no change if they are kept as they are. -/
theorem renumbered_numbered {ops : List Operation} {b : Nat}
    (fixed : ∀ i, i < b + Operation.totalRegistrations ops → π i = i) :
    List.Forall₂ (Renumbered π) (Operation.numbered b ops) (Operation.numbered b ops) := by
  induction ops generalizing b with
  | nil => exact .nil
  | cons op rest ih =>
    rw [Operation.totalRegistrations] at fixed
    refine .cons ⟨rfl, fun needed => fixed b ?_⟩ (ih fun i small => fixed i (by omega))
    have positive : 0 < op.registrations := Nat.pos_of_ne_zero needed
    omega

/-- The numbers that one side of a conversation would get alone can be changed to those that it
gets, without a change to the numbers before; and without any change if the other side registers
nothing. -/
theorem exists_renumbering (k : Fin 2) (turns : List (Fin 2 × Operation)) {b n : Nat}
    (ahead : b ≤ n) :
    ∃ π : Equiv.Perm Nat, (∀ i, i < b → π i = i) ∧
      (b = n → (∀ turn ∈ turns, turn.1 ≠ k → turn.2.registrations = 0) → π = Equiv.refl Nat) ∧
      List.Forall₂ (fun step step' => Renumbered π step step' ∧ n ≤ step'.1)
        (Operation.numbered b (Session.side k turns))
        (Session.side k (Session.numbered n turns)) := by
  induction turns generalizing b n with
  | nil => exact ⟨Equiv.refl Nat, fun _ _ => rfl, fun _ _ => rfl, .nil⟩
  | cons turn rest ih =>
    obtain ⟨l, op⟩ := turn
    by_cases mine : l = k
    · subst mine
      rw [Session.side_cons_self, Session.numbered, Session.side_cons_self, Operation.numbered]
      obtain ⟨π, fixed, trivial, each⟩ := @ih (b + op.registrations) (n + op.registrations)
        (by omega)
      by_cases registering : op.registrations = 0
      · rw [registering] at fixed trivial each ⊢
        refine ⟨π, fixed, ?_, .cons ⟨⟨rfl, fun wrong => absurd registering wrong⟩, Nat.le_refl n⟩
          each⟩
        exact fun same quiet => trivial same fun turn member =>
          quiet turn (List.mem_cons_of_mem _ member)
      · -- later numbers are above `n`, so exchanging `b` and `n` does not touch them
        refine ⟨π.trans (Equiv.swap b n), ?_, ?_, .cons ⟨⟨rfl, fun _ => ?_⟩, Nat.le_refl n⟩ ?_⟩
        · intro i small
          rw [Equiv.trans_apply, fixed i (by omega),
            Equiv.swap_apply_of_ne_of_ne (by omega) (by omega)]
        · intro same quiet
          rw [trivial (by omega) fun turn member => quiet turn (List.mem_cons_of_mem _ member),
            same, Equiv.swap_self]
          rfl
        · rw [Equiv.trans_apply, fixed b (by omega), Equiv.swap_apply_left]
        · refine each.imp fun step step' => ?_
          rintro ⟨⟨same, number⟩, above⟩
          refine ⟨⟨same, fun needed => ?_⟩, by omega⟩
          rw [Equiv.trans_apply, number needed, Equiv.swap_apply_of_ne_of_ne (by omega) (by omega)]
    · rw [Session.side_cons_of_ne mine, Session.numbered, Session.side_cons_of_ne mine]
      obtain ⟨π, fixed, trivial, each⟩ := @ih b (n + op.registrations) (by omega)
      refine ⟨π, fixed, ?_, each.imp fun step step' both => ⟨both.1, by omega⟩⟩
      intro same quiet
      have nothing : op.registrations = 0 := quiet (l, op) List.mem_cons_self mine
      exact trivial (by omega) fun turn member => quiet turn (List.mem_cons_of_mem _ member)

end Machines

end Argot
