import Mathlib.Logic.Equiv.Basic
import Argot.Proofs.Programs

set_option autoImplicit false

/-!
# The vocabulary is only a spelling

A program can be written in another vocabulary by calling its names something else, and
then it does the same.  Evaluation compares names only with each other and with the names
of the special forms, and looks them up only where they were bound, so there is nothing
else that a spelling could change: not the numbers that are drawn at random, and not the
scopes that are made on the way.
-/

namespace Argot

namespace Value

variable {r : Equiv.Perm Text}

mutual

/-- Values that match under a renaming, closure for closure with the same scopes, are the
same up to names. -/
theorem Matches.eq_rename : (x : Value) → {y : Value} → {home : Pairing} →
    (∀ i i', home i i' → i' = i) → x.Matches (.renaming r) home y → y = x.rename r
  | .nil, _, _, _, .nil => rfl
  | .quote x, _, _, _, .quote inner => by
    rw [rename, Matches.eq_rename x (fun _ _ => False.elim) inner]
  | .symbol _, _, _, _, .symbol _ => rfl
  | .number _, _, _, _, .number _ => rfl
  | .boolean _, _, _, _, .boolean _ => rfl
  | .string _, _, _, _, .string _ => rfl
  | .list xs, _, _, same, .list each => by rw [rename, MatchesAll.eq_renameAll xs same each]
  | .builtin _, _, _, _, .builtin known => by rw [rename, known.1]
  | .closure p b _, _, _, same, .closure params body remembers => by
    rw [rename, Matches.eq_rename p (fun _ _ => False.elim) params,
      Matches.eq_rename b (fun _ _ => False.elim) body]
    cases remembers with
    | none => rfl
    | some paired => rw [same _ _ paired]
  | .scopedLet p b, _, _, _, .scopedLet bindings body => by
    rw [rename, Matches.eq_rename p (fun _ _ => False.elim) bindings,
      Matches.eq_rename b (fun _ _ => False.elim) body]

theorem MatchesAll.eq_renameAll : (xs : List Value) → {ys : List Value} → {home : Pairing} →
    (∀ i i', home i i' → i' = i) → MatchesAll (.renaming r) home xs ys → ys = renameAll r xs
  | [], _, _, _, .nil => rfl
  | x :: xs, _, _, same, .cons first rest => by
    rw [renameAll, Matches.eq_rename x same first, MatchesAll.eq_renameAll xs same rest]

end

end Value

/-- The second result is what the first one is called in other words: the same value under
other names, or an error of the same kind. -/
inductive Respelled (f : Text → Text) : Except Report Value → Except Report Value → Prop where
  | value (y : Value) : Respelled f (.ok y) (.ok (y.rename f))
  | error {e e' : Report} (kind : e'.kind = e.kind) : Respelled f (.error e) (.error e')

/-- In a valid vocabulary, expressions are evaluated by a new machine, and their failures
are reported. -/
theorem evaluateAll_of_isValid {settings : Settings} (valid : settings.vocabulary.IsValid)
    (fuel : Nat) (xs : List Value) (scope : Nat) (c : Commons) :
    evaluateAll fuel settings xs scope c =
      (Machine.evalAll fuel scope xs (Machine.create settings c)).map
        (Prod.map (List.map (Except.mapError (Failure.report settings.vocabulary)))
          Machine.commons) := by
  unfold evaluateAll
  rw [(Vocabulary.validate_eq_ok_iff _).2 valid]
  cases Machine.evalAll fuel scope xs (Machine.create settings c) with
  | none => rfl
  | some out =>
    simp only [Option.map_some, Prod.map]
    congr 3
    funext outcome
    cases outcome <;> rfl

/-- Where scopes stand for themselves, they have the same parent and the same bindings, up to
names. -/
theorem Store.Corresponds.eq_of_since {r : Equiv.Perm Text} {first : Nat} {s s' : Store}
    (h : s.Corresponds (.renaming r) (.since first) s') {i : Nat} (new : first ≤ i) :
    s'.parent? i = s.parent? i ∧
      ∀ n, s'.local? i (r n) = (s.local? i n).map (Value.rename r) := by
  have paired : Pairing.since first i i := ⟨rfl, new⟩
  constructor
  · have parents := h.parent paired
    generalize s.parent? i = p at parents
    generalize s'.parent? i = p' at parents
    cases parents with
    | none => rfl
    | some same => rw [same.1]
  · intro n
    have bound := h.binding paired n
    change Option.Rel _ _ (s'.local? i (r n)) at bound
    generalize s.local? i n = x at bound
    generalize s'.local? i (r n) = x' at bound
    cases bound with
    | none => rfl
    | some matching =>
      rw [Value.Matches.eq_rename _ (fun _ _ inside => inside.1.1) matching, Option.map_some]

theorem Store.size_pushGlobal (s : Store) (primitives : NameMap Primitive) :
    (s.pushGlobal primitives).size = s.size + 1 :=
  size_push _ _

/-- Outcomes that are alike are reported in other words. -/
theorem respelled_of_alike {r : Equiv.Perm Text} {home : Pairing} (v w : Vocabulary)
    (same : ∀ i i', home i i' → i' = i) {outcomes outcomes' : List Outcome}
    (alike : Machine.OutcomesAlike (.renaming r) home outcomes outcomes') :
    List.Forall₂ (Respelled r) (outcomes.map (Except.mapError (Failure.report v)))
      (outcomes'.map (Except.mapError (Failure.report w))) := by
  induction alike with
  | nil => exact .nil
  | cons first _ ih =>
    refine .cons ?_ ih
    cases first with
    | value matching =>
      rw [Value.Matches.eq_rename _ same matching]
      exact .value _
    | failure about => exact .error about.kind_eq

/-- **The vocabulary is only a spelling.**  Let a permutation of all names take the names
of the special forms and of the builtins in one valid vocabulary to those in another one,
and keep the arithmetic names.  Evaluate any program text in one vocabulary, in a new scope
that holds its builtins, and evaluate the renamed text in the other vocabulary, in a new
scope that holds that one's builtins.  Then neither evaluation ends, or both do, and

* the results correspond one by one: the same value under other names, with the same
  random numbers in it, or an error of the same kind;
* every scope, from the given one on, has the same parent in both and binds the same
  values to the same names, as they are called in either vocabulary. -/
theorem vocabulary_is_only_a_spelling {v w : Vocabulary} (valid : v.IsValid) (valid' : w.IsValid)
    {r : Equiv.Perm Text} (spelling : Respells r v w) (settings : Settings) (c : Commons)
    (fuel : Nat) {xs : List Value} (source : ∀ x ∈ xs, x.isSource = true) :
    let scope := c.store.size
    let evaluated (v : Vocabulary) (xs : List Value) :=
      evaluateAll fuel { settings with vocabulary := v } xs scope
        { c with store := c.store.pushGlobal v.primitives }
    (evaluated v xs = none ∧ evaluated w (xs.map (Value.rename r)) = none) ∨
    ∃ results after results' after',
      evaluated v xs = some (results, after) ∧
      evaluated w (xs.map (Value.rename r)) = some (results', after') ∧
      List.Forall₂ (Respelled r) results results' ∧
      ∀ i, scope ≤ i → after'.store.parent? i = after.store.parent? i ∧
        ∀ n, after'.store.local? i (r n) = (after.store.local? i n).map (Value.rename r) := by
  intro scope evaluated
  have stores := (c.store.corresponds_since r).pushGlobal rfl spelling
  have machines : (Machine.create { settings with vocabulary := v }
      { c with store := c.store.pushGlobal v.primitives }).Corresponds (.renaming r)
        (.since scope) (Machine.create { settings with vocabulary := w }
          { c with store := c.store.pushGlobal w.primitives }) :=
    Machine.create_corresponds spelling settings stores rfl
  have matching : Value.MatchesAll (.renaming r) (Dictionary.renaming r).written xs
      (Value.renameAll r xs) :=
    Value.matchesAll_rename (.renaming r) _ xs (Value.allSource_iff.2 source)
  have there : ∀ u : Vocabulary, scope < ((c.store.pushGlobal u.primitives).pushGlobal
      u.primitives).size := by
    intro u
    rw [Store.size_pushGlobal, Store.size_pushGlobal]
    omega
  have ended := Machine.evalAll_corresponds machines fuel matching
    ⟨⟨rfl, Nat.le_refl scope⟩, there v, there w⟩
  simp only [evaluated]
  rw [evaluateAll_of_isValid (by exact valid), evaluateAll_of_isValid (by exact valid'),
    ← Value.renameAll_eq_map]
  generalize Machine.evalAll fuel scope xs _ = out at ended ⊢
  generalize Machine.evalAll fuel scope (Value.renameAll r xs) _ = out' at ended ⊢
  cases ended with
  | exhausted => exact .inl ⟨rfl, rfl⟩
  | @ended outcomes outcomes' n n' machines _ _ alike =>
    refine .inr ⟨_, _, _, _, rfl, rfl,
      respelled_of_alike v w (fun _ _ paired => paired.1.1) alike, ?_⟩
    intro i new
    exact machines.world.store.eq_of_since new

/-- Exchanges what two vocabularies call the same thing, role by role. -/
def exchange (v w : Vocabulary) : Equiv.Perm Text :=
  Role.callable.foldr
    (fun role others => (Equiv.swap (v.token role) (w.token role)).trans others) (Equiv.refl Text)

/-- In words and in pictures: a closure that quotes its own name, or fails. -/
theorem words_respelled_as_pictures :
    let r := exchange .words .pictures
    let body : Value := .list [.symbol "if", .list [.symbol "and", .symbol "x"],
      .quote (.symbol "if"), .list [.symbol "car", .symbol "x"]]
    let program : List Value :=
      [.list [.symbol "var", .symbol "f", .list [.symbol "closure", .list [.symbol "x"], body]],
        .list [.symbol "f", .boolean true], .list [.symbol "f", .boolean false]]
    let evaluated (v : Vocabulary) (xs : List Value) :=
      evaluateAll 5 { Settings.standard v with lexical := true } xs 0
        { Commons.empty with store := Store.empty.pushGlobal v.primitives }
    Vocabulary.words.IsValid ∧ Vocabulary.pictures.IsValid ∧
    Respells r .words .pictures ∧ (∀ x ∈ program, x.isSource = true) ∧
    ∃ results after results' after',
      evaluated .words program = some (results, after) ∧
      evaluated .pictures (program.map (Value.rename r)) = some (results', after') ∧
      List.Forall₂ (Respelled r) results results' ∧
      after'.store.local? 0 (r "f") = (after.store.local? 0 "f").map (Value.rename r) := by
  intro r body program evaluated
  have valid : Vocabulary.words.IsValid := by decide
  have valid' : Vocabulary.pictures.IsValid := by decide
  have spelling : Respells r .words .pictures := ⟨by decide, by decide⟩
  have source : ∀ x ∈ program, x.isSource = true := by decide
  have ends : (evaluated .words program).isSome = true := by decide +kernel
  refine ⟨valid, valid', spelling, source, ?_⟩
  rcases vocabulary_is_only_a_spelling valid valid' spelling
    { Settings.standard .words with lexical := true } ∅ 5 source with ⟨never, _⟩ | found
  · rw [show evaluated .words program = none from never] at ends
    cases ends
  · obtain ⟨results, after, results', after', first, second, alike, scopes⟩ := found
    exact ⟨results, after, results', after', first, second, alike, (scopes 0 (Nat.le_refl 0)).2 "f"⟩

end Argot
