import Argot.Proofs.Dictionary
import Argot.Proofs.Likeness

set_option autoImplicit false

/-!
# Evaluation under other names

A `Renaming` is a relation between stores that differ in names and in the numbers of scopes, and
that says of related stores which scopes stand for which.  It is kept when matching values are bound
in scopes that stand for each other, and when scopes are added under them, which then stand for each
other too.  This is all that evaluation does to a store, and so evaluations of matching expressions
end alike, in stores that are related again (`eval_renames`).  Whether there is a trace, and how
deep in it things happen, makes no difference.
-/

namespace Argot

open Value

/-! ## Expressions and plans -/

theorem Value.matchesAll_iff {d : Dictionary} {home : Pairing} {xs xs' : List Value} :
    MatchesAll d home xs xs' ↔ List.Forall₂ (Matches d home) xs xs' := by
  constructor
  · intro each
    induction xs generalizing xs' with
    | nil =>
      cases each
      exact .nil
    | cons x xs ih =>
      rcases each with _ | ⟨first, rest⟩
      exact .cons first (ih rest)
  · intro each
    induction each with
    | nil => exact .nil
    | cons first _ ih => exact .cons first ih

/-- Expressions match as program text does; of the values, the closures may remember scopes that are
paired at the stage. -/
def Likeness.matching {ι : Type} (d : Dictionary) (later : ι → ι → Prop) (home : ι → Pairing) :
    Likeness ι where
  later := later
  name := d.name
  text _ := Matches d d.written
  value c := Matches d (home c)
  failure c := Failure.Matches d (home c)
  allows _ := True

section Matching

variable {ι : Type} {d : Dictionary} {later : ι → ι → Prop} {home : ι → Pairing} {c : ι}

theorem mapM_symbolName?_eq {items items' : List Value} {home : Pairing}
    (each : MatchesAll d home items items') :
    items'.mapM Value.symbolName? =
      (items.mapM Value.symbolName?).map (List.map d.name) := by
  induction items generalizing items' with
  | nil =>
    cases each
    rfl
  | cons x xs ih =>
    rcases each with _ | ⟨first, rest⟩
    rw [List.mapM_cons, List.mapM_cons, ih rest]
    cases first with
    | symbol n => cases xs.mapM Value.symbolName? <;> rfl
    | _ => rfl

theorem params_matching (written : ∀ i i', d.written i i' → home c i i') {params params' : Value}
    (matching : params.Matches d d.written params') :
    (Likeness.matching d later home).Params c (paramNames params) (paramNames params') := by
  have about := matching.mono written
  cases matching with
  | @list _ items items' each =>
    rw [paramNames, paramNames, mapM_symbolName?_eq each]
    cases items.mapM Value.symbolName? with
    | none => exact .failed (.paramNotSymbol about)
    | some names => exact .named names
  | _ => exact .failed (.paramsNotList about)

theorem coherent_matching (home : ι → Pairing) (refl : ∀ c, later c c)
    (trans : ∀ {c₁ c₂ c₃}, later c₁ c₂ → later c₂ c₃ → later c₁ c₃)
    (more : ∀ {c c₁}, later c c₁ → ∀ i i', home c i i' → home c₁ i i')
    (written : ∀ c i i', d.written i i' → home c i i') {v v' : Vocabulary}
    (form : ∀ n, v'.form? (d.name n) = v.form? n) :
    (Likeness.matching d later home).Coherent v v' where
  refl := refl
  trans := trans
  text_later _ := id
  value_later later := Matches.mono (more later)
  form := form
  symbol := by
    rintro c _ _ (_ | _) <;> rfl
  list := by
    intro c x x' matching
    cases matching with
    | list each => exact .some (matchesAll_iff.1 each)
    | _ => exact .none
  truth _ b := .boolean b
  boolean := by
    rintro c _ _ (_ | _) <;> rfl
  callable := by
    intro c f f' matching
    cases matching with
    | builtin same => exact .builtin _ _
    | closure params body remembers =>
      exact .closure _ _ _ _ (params_matching (written c) params)
    | _ => exact .other rfl rfl
  raised := by
    intro c e e' raised
    have outside {x x' : Value} (about : x.Matches d d.written x') : x.Matches d (home c) x' :=
      about.mono (written c)
    cases raised with
    | formArity n wanted given => exact .formArity n wanted given
    | conditionNotBoolean n about => exact .conditionNotBoolean n about
    | targetNotSymbol n about => exact .targetNotSymbol n (outside about)
    | bindingsNotList n about => exact .bindingsNotList n (outside about)
    | bindingNotPair n about => exact .bindingNotPair n (outside about)
    | bindingNotSymbol n about => exact .bindingNotSymbol n (outside about)
    | closureArity wanted given => exact .closureArity wanted given
    | notCallable about => exact .notCallable (outside about)

theorem whole_matching (home : ι → Pairing)
    (written : ∀ i i', d.written i i' → home c i i') {v : Vocabulary} {x x' : Value}
    (matching : x.Matches d d.written x') :
    (Likeness.matching d later home).Whole v c x x' := by
  have value := matching.mono written
  cases matching with
  | nil => exact .nil .nilExpression
  | quote inner => exact .quote (inner.mono written)
  | symbol n => exact .symbol n
  | list each => exact .list (matchesAll_iff.1 each) fun _ _ => trivial
  | scopedLet => exact .scopedLet (.unsupported value)
  | _ => exact .constant rfl rfl value

/-- Maps that are filled up alike bind matching values to what is called the same. -/
theorem find?_ofList_matching {es es' : List (Text × Value)}
    (entries : (Likeness.matching d later home).Entries c es es') (n : Text) :
    Option.Rel (Matches d (home c)) ((NameMap.ofList es).find? n)
      ((NameMap.ofList es').find? (d.name n)) := by
  have filled : ∀ m m' : NameMap Value,
      (∀ n, Option.Rel (Matches d (home c)) (m.find? n) (m'.find? (d.name n))) →
      Option.Rel (Matches d (home c)) ((es.foldl (fun m e => m.insert e.1 e.2) m).find? n)
        ((es'.foldl (fun m e => m.insert e.1 e.2) m').find? (d.name n)) := by
    induction entries with
    | nil => exact fun m m' before => before n
    | @cons e e' _ _ first _ ih =>
      have name : e'.1 = d.name e.1 := first.1
      intro m m' before
      refine ih _ _ fun n => ?_
      rw [NameMap.find?_insert, NameMap.find?_insert, name]
      by_cases same : n = e.1
      · rw [if_pos same, if_pos (congrArg d.name same)]
        exact .some first.2
      · rw [if_neg same, if_neg fun same' => same (d.name_injective same')]
        exact before n
  exact filled ∅ ∅ fun _ => .none

end Matching

/-! ## Renamings -/

/-- A relation between stores that evaluation keeps.  In related stores, `home` pairs the scopes
that stand for each other; `grows` is what becomes of either store. -/
structure Renaming (d : Dictionary) where
  stores : Store → Store → Prop
  home : Store → Store → Pairing
  grows : Store → Store → Prop
  refl : ∀ s, grows s s
  trans : ∀ {s₁ s₂ s₃}, grows s₁ s₂ → grows s₂ s₃ → grows s₁ s₃
  more : ∀ {s s' s₁ s₁'}, grows s s₁ → grows s' s₁' → ∀ i i', home s s' i i' → home s₁ s₁' i i'
  written : ∀ {s s'}, stores s s' → ∀ i i', d.written i i' → home s s' i i'
  lookup : ∀ {s s' i i'}, stores s s' → home s s' i i' → ∀ n,
    Option.Rel (Matches d (home s s')) (s.lookup i n) (s'.lookup i' (d.name n))
  bind : ∀ {s s' i i' x x'}, stores s s' → home s s' i i' → Matches d (home s s') x x' → ∀ n,
    stores (s.bind i n x) (s'.bind i' (d.name n) x')
  grows_bind : ∀ s i n x, grows s (s.bind i n x)
  push : ∀ {s s' p p' f f'}, stores s s' → home s s' p p' → f.parent = some p →
    f'.parent = some p' →
    (∀ n, Option.Rel (Matches d (home s s')) (f.bindings.find? n) (f'.bindings.find? (d.name n))) →
    stores (s.push f) (s'.push f') ∧ home (s.push f) (s'.push f') s.size s'.size ∧
      grows s (s.push f) ∧ grows s' (s'.push f')

namespace Renaming

variable {d : Dictionary} (ρ : Renaming d)

/-- Two related stores. -/
def Stage : Type := { stores : Store × Store // ρ.stores stores.1 stores.2 }

/-- What becomes of two related stores. -/
def later (c c₁ : ρ.Stage) : Prop := ρ.grows c.1.1 c₁.1.1 ∧ ρ.grows c.1.2 c₁.1.2

/-- The scopes that stand for each other in related stores. -/
def pairs (c : ρ.Stage) : Pairing := ρ.home c.1.1 c.1.2

/-- Expressions match, and so do values as far as the stores have come. -/
abbrev likeness : Likeness ρ.Stage := .matching d ρ.later ρ.pairs

theorem pairs_later {c c₁ : ρ.Stage} (later : ρ.later c c₁) (i i' : Nat) (paired : ρ.pairs c i i') :
    ρ.pairs c₁ i i' :=
  ρ.more later.1 later.2 i i' paired

theorem coherent {v v' : Vocabulary} (form : ∀ n, v'.form? (d.name n) = v.form? n) :
    ρ.likeness.Coherent v v' :=
  coherent_matching ρ.pairs (fun c => ⟨ρ.refl c.1.1, ρ.refl c.1.2⟩)
    (fun first second => ⟨ρ.trans first.1 second.1, ρ.trans first.2 second.2⟩)
    ρ.pairs_later (fun c => ρ.written c.2) form

end Renaming

/-! ## Runs -/

/-- The rules differ only in the names of the special forms and in tracing; the functions of the
host that the dictionary knows do not tell matching arguments apart. -/
structure Rules.Renames {d : Dictionary} (ρ : Renaming d) (r r' : Rules) : Prop where
  form : ∀ n, r'.vocabulary.form? (d.name n) = r.vocabulary.form? n
  lexical : r'.lexical = r.lexical
  eagerIf : r'.eagerIf = r.eagerIf
  host : ∀ {b b' slot} {c : ρ.Stage} {args args'}, d.builtin b b' → b.op = .host slot →
    MatchesAll d (ρ.pairs c) args args' →
    Alike d (ρ.pairs c) (Matches d (ρ.pairs c)) (r.host slot b.name args)
      (r'.host slot b'.name args')

namespace Run

variable {d : Dictionary} {ρ : Renaming d}

/-- The ends of two runs that started in the given stores: the answers are alike, the stores are
related, and the next random numbers are the same. -/
structure EndsAlike (ρ : Renaming d) (s s' : Store) (out out' : Except Failure Value × World) :
    Prop where
  stores : ρ.stores out.2.store out'.2.store
  grows : ρ.grows s out.2.store
  grows' : ρ.grows s' out'.2.store
  generator : out'.2.generator = out.2.generator
  answers : Alike d (ρ.home out.2.store out'.2.store) (Matches d (ρ.home out.2.store out'.2.store))
    out.1 out'.1

/-- In the stores of the stage, and with the same random numbers to come, neither run has an answer,
or both end alike. -/
def Renames (ρ : Renaming d) (c : ρ.Stage) (m m' : Run Value) : Prop :=
  ∀ w w', w.store = c.1.1 → w'.store = c.1.2 → w'.generator = w.generator →
    Option.Rel (EndsAlike ρ c.1.1 c.1.2) (m w) (m' w')

namespace Renames

variable {c : ρ.Stage}

/-- Runs that end for certain and leave the stores alone. -/
theorem of_apply {m m' : Run Value} {out out' : World → Except Failure Value × World}
    (known : ∀ w, m w = some (out w)) (known' : ∀ w, m' w = some (out' w))
    (still : ∀ w, (out w).2.store = w.store) (still' : ∀ w, (out' w).2.store = w.store)
    (alike : ∀ w w', w.store = c.1.1 → w'.store = c.1.2 → w'.generator = w.generator →
      (out' w').2.generator = (out w).2.generator ∧
        Alike d (ρ.pairs c) (Matches d (ρ.pairs c)) (out w).1 (out' w').1) :
    Renames ρ c m m' := by
  intro w w' store store' generator
  obtain ⟨generators, answers⟩ := alike w w' store store' generator
  have here := (still w).trans store
  have here' := (still' w').trans store'
  rw [known, known']
  refine .some ⟨?_, ?_, ?_, generators, ?_⟩
  · rw [here, here']
    exact c.2
  · rw [here]
    exact ρ.refl _
  · rw [here']
    exact ρ.refl _
  · rw [here, here']
    exact answers

theorem exhausted : Renames ρ c Run.exhausted Run.exhausted := fun _ _ _ _ _ => .none

theorem pure {x x' : Value} (matching : x.Matches d (ρ.pairs c) x') :
    Renames ρ c (Pure.pure x) (Pure.pure x') :=
  of_apply (pure_apply x) (pure_apply x') (fun _ => rfl) (fun _ => rfl)
    fun _ _ _ _ generator => ⟨generator, .value matching⟩

theorem throw {e e' : Failure} (about : e.Matches d (ρ.pairs c) e') :
    Renames ρ c (MonadExcept.throw e) (MonadExcept.throw e') :=
  of_apply (throw_apply e) (throw_apply e') (fun _ => rfl) (fun _ => rfl)
    fun _ _ _ _ generator => ⟨generator, .failure about⟩

theorem lookup {i i' : Nat} (paired : ρ.pairs c i i') (n : Text) :
    Renames ρ c (Run.lookup i n) (Run.lookup i' (d.name n)) := by
  refine of_apply (lookup_apply i n) (lookup_apply i' (d.name n)) (fun _ => rfl) (fun _ => rfl)
    fun w w' store store' generator => ⟨generator, ?_⟩
  have meaning := ρ.lookup c.2 paired n
  rw [← store, ← store'] at meaning
  dsimp only
  generalize w.store.lookup i n = x at meaning
  generalize w'.store.lookup i' (d.name n) = x' at meaning
  cases meaning with
  | some matching =>
    rw [store, store'] at matching
    exact .value matching
  | none => exact .failure (.unboundSymbol n)

theorem callBuiltin {r r' : Rules} (rules : r.Renames ρ r') {f f' : Builtin}
    (same : d.builtin f f') {args args' : List Value}
    (matching : MatchesAll d (ρ.pairs c) args args') :
    Renames ρ c (Run.callBuiltin r f args) (Run.callBuiltin r' f' args') := by
  refine of_apply (callBuiltin_apply r f args) (callBuiltin_apply r' f' args') (fun _ => rfl)
    (fun _ => rfl) fun w w' _ _ generator => ?_
  have answers := @Primitive.alike_apply d _ r.host r'.host f.name args args' w.generator f.op
    matching fun slot isHost => by
      rw [← d.builtin_name same]
      exact rules.host same isHost matching
  rw [d.builtin_op same, d.builtin_name same, generator]
  exact answers.symm

/-- What starts later ends alike for what started earlier. -/
theorem after (c₁ : ρ.Stage) (later : ρ.later c c₁)
    {out out' : Option (Except Failure Value × World)}
    (h : Option.Rel (EndsAlike ρ c₁.1.1 c₁.1.2) out out') :
    Option.Rel (EndsAlike ρ c.1.1 c.1.2) out out' := by
  cases h with
  | none => exact .none
  | some ends =>
    exact .some ⟨ends.stores, ρ.trans later.1 ends.grows, ρ.trans later.2 ends.grows',
      ends.generator, ends.answers⟩

theorem andThen {m m' : Run Value} {f f' : Value → Run Value} (h : Renames ρ c m m')
    (next : ∀ (c₁ : ρ.Stage) y y', ρ.later c c₁ → Matches d (ρ.pairs c₁) y y' →
      Renames ρ c₁ (f y) (f' y')) : Renames ρ c (m >>= f) (m' >>= f') := by
  intro w w' store store' generator
  have first := h w w' store store' generator
  rw [andThen_apply, andThen_apply]
  generalize m w = out at first
  generalize m' w' = out' at first
  cases first with
  | none => exact .none
  | @some out out' ends =>
    obtain ⟨answer, w₁⟩ := out
    obtain ⟨answer', w₁'⟩ := out'
    obtain ⟨stores, grows, grows', generator₁, answers⟩ := ends
    cases answers with
    | failure about => exact .some ⟨stores, grows, grows', generator₁, .failure about⟩
    | value related =>
      let c₁ : ρ.Stage := ⟨(w₁.store, w₁'.store), stores⟩
      exact after c₁ ⟨grows, grows'⟩
        (next c₁ _ _ ⟨grows, grows'⟩ related w₁ w₁' rfl rfl generator₁)

/-- A line of the trace makes no difference. -/
theorem record (r r' : Rules) (e e' : TraceEvent) {m m' : Run Value} (h : Renames ρ c m m') :
    Renames ρ c (Run.record r e >>= fun _ => m) (Run.record r' e' >>= fun _ => m') := by
  intro w w' store store' generator
  rw [andThen_apply, andThen_apply, record_apply, record_apply]
  exact h _ _ store store' generator

/-- The new scopes stand for each other. -/
theorem pushFrame {f f' : Frame} {p p' : Nat} (parent : f.parent = some p)
    (parent' : f'.parent = some p') (paired : ρ.pairs c p p')
    (bindings : ∀ n, Option.Rel (Matches d (ρ.pairs c)) (f.bindings.find? n)
      (f'.bindings.find? (d.name n))) {k k' : Nat → Run Value}
    (body : ∀ (c₁ : ρ.Stage) i i', ρ.later c c₁ → ρ.pairs c₁ i i' → Renames ρ c₁ (k i) (k' i')) :
    Renames ρ c (Run.pushFrame f >>= k) (Run.pushFrame f' >>= k') := by
  intro w w' store store' generator
  obtain ⟨stores, new, grows, grows'⟩ := ρ.push c.2 paired parent parent' bindings
  rw [andThen_apply, andThen_apply, pushFrame_apply, pushFrame_apply]
  dsimp only
  rw [store, store']
  let c₁ : ρ.Stage := ⟨(c.1.1.push f, c.1.2.push f'), stores⟩
  exact after c₁ ⟨grows, grows'⟩ (body c₁ _ _ ⟨grows, grows'⟩ new _ _ rfl rfl generator)

/-- A definition, which answers its record. -/
theorem define {i i' : Nat} (paired : ρ.pairs c i i') (n : Text) {x x' : Value}
    (matching : x.Matches d (ρ.pairs c) x') :
    Renames ρ c (Run.bind i n x >>= fun _ => Pure.pure (.list [.symbol n, x, .boolean true]))
      (Run.bind i' (d.name n) x' >>= fun _ =>
        Pure.pure (.list [.symbol (d.name n), x', .boolean true])) := by
  intro w w' store store' generator
  have grows := ρ.grows_bind c.1.1 i n x
  have grows' := ρ.grows_bind c.1.2 i' (d.name n) x'
  rw [andThen_apply, andThen_apply, bind_apply, bind_apply]
  dsimp only
  rw [store, store']
  refine .some ⟨ρ.bind c.2 paired matching n, grows, grows', generator, .value (.list ?_)⟩
  exact .cons (.symbol n) (.cons (matching.mono (ρ.more grows grows')) (.cons (.boolean true) .nil))

end Renames
end Run

/-! ## Steps -/

/-- Matching expressions are evaluated alike in scopes that stand for each other, at any depths. -/
def Evaluator.Renames {d : Dictionary} (ρ : Renaming d) (ev ev' : Evaluator) : Prop :=
  ∀ {x x' scope scope'} {c : ρ.Stage} (depth depth' : Nat), x.Matches d d.written x' →
    ρ.pairs c scope scope' → Run.Renames ρ c (ev x scope depth) (ev' x' scope' depth')

section Steps

open Run

variable {d : Dictionary} {ρ : Renaming d} {r r' : Rules} {ev ev' : Evaluator} {c : ρ.Stage}
  {scope scope' : Nat}

theorem Move.renames_run (rules : r.Renames ρ r') (evs : Evaluator.Renames ρ ev ev')
    (depth depth' : Nat) (scopes : ρ.pairs c scope scope') {a a' : Move}
    (alike : a.Alike ρ.likeness c a') :
    Run.Renames ρ c (a.run r ev scope depth) (a'.run r' ev' scope' depth') := by
  cases alike with
  | answer values => exact .pure values
  | fail failures => exact .throw failures
  | lookup n => exact .lookup scopes n
  | define n _ values => exact .define scopes n values
  | close _ params bodies =>
    rw [run, run, rules.lexical]
    refine .pure (.closure params bodies ?_)
    split
    · exact .some scopes
    · exact .none
  | call functions values =>
    cases functions with
    | builtin same =>
      exact .record r r' _ _ (.callBuiltin rules same (Value.matchesAll_iff.2 values))
  | block n entries bodies =>
    exact .pushFrame rfl rfl scopes (find?_ofList_matching entries) fun _ _ _ _ paired =>
      evs _ _ bodies paired
  | @enter _ _ _ _ home home' _ _ functions entries =>
    cases functions with
    | closure params body remembers =>
      -- a closure without a home runs under its caller, so homes are missing in pairs
      have under : ρ.pairs c (home.getD scope) (home'.getD scope') := by
        cases remembers with
        | some paired => exact paired
        | none => exact scopes
      exact .pushFrame rfl rfl under (find?_ofList_matching entries) fun _ _ _ _ paired =>
        .record r r' _ _ (evs _ _ body paired)

theorem Plan.renames_run (rules : r.Renames ρ r') (evs : Evaluator.Renames ρ ev ev')
    (depth depth' : Nat) (scopes : ρ.pairs c scope scope') {p p' : Plan}
    (alike : p.Alike ρ.likeness c p') :
    Run.Renames ρ c (p.run r ev scope depth) (p'.run r' ev' scope' depth') := by
  induction alike with
  | move moves => exact Move.renames_run rules evs depth depth' scopes moves
  | eval texts _ ih =>
    exact (evs _ _ texts scopes).andThen fun _ _ _ later values =>
      ih later values (ρ.pairs_later later _ _ scopes)

theorem evalStep_renames (rules : r.Renames ρ r') (evs : Evaluator.Renames ρ ev ev') :
    Evaluator.Renames ρ (evalStep r ev) (evalStep r' ev') := by
  intro x x' scope scope' c depth depth' matching scopes
  have alike := (ρ.coherent rules.form).alike_plan (c := c)
    (whole_matching ρ.pairs (ρ.written c.2) matching) r.eagerIf
  rw [evalStep_eq, evalStep_eq, rules.eagerIf]
  exact .record r r' _ _ (Plan.renames_run rules evs depth depth' scopes alike)

end Steps

/-- **Evaluation does not depend on what things are called.**  Under rules that are the same but for
names, matching expressions are evaluated alike in scopes that stand for each other. -/
theorem eval_renames {d : Dictionary} {ρ : Renaming d} {r r' : Rules} (rules : r.Renames ρ r')
    (fuel : Nat) : Evaluator.Renames ρ (eval r fuel) (eval r' fuel) := by
  induction fuel with
  | zero => exact fun _ _ _ _ => .exhausted
  | succ fuel ih => exact evalStep_renames rules ih

end Argot
