import Argot.Proofs.Programs

set_option autoImplicit false

/-!
# Machines that cannot be told apart

Twins are machines of one vocabulary whose rules and worlds correspond while everything
is called what it is: they may differ in the scopes that closures remember, in their
caches and in their traces, and in all that is not paired.  Given the same texts, twins
print the same answers, and their global scopes look the same on display.
-/

namespace Argot

open Value

/-- Everything is called what it is. -/
abbrev Dictionary.plain : Dictionary := .renaming (Equiv.refl Text)

theorem Dictionary.plain_isPlain : Dictionary.plain.Plain := fun _ => rfl

namespace Value

mutual

theorem rename_refl : (x : Value) → x.rename (Equiv.refl Text) = x
  | .nil | .symbol _ | .number _ | .boolean _ | .string _ | .builtin _ => rfl
  | .quote x => by rw [rename, rename_refl x]
  | .list xs => by rw [rename, renameAll_refl xs]
  | .closure p b _ | .scopedLet p b => by rw [rename, rename_refl p, rename_refl b]

theorem renameAll_refl : (xs : List Value) → renameAll (Equiv.refl Text) xs = xs
  | [] => rfl
  | x :: xs => by rw [renameAll, rename_refl x, renameAll_refl xs]

end

/-- Program text matches itself where everything is called what it is. -/
theorem matchesAll_self {d : Dictionary} (plain : d.Plain) {xs : List Value}
    (source : allSource xs = true) (home : Pairing) : MatchesAll d home xs xs := by
  have renamed := matchesAll_rename d home xs source
  have names : d.name = Equiv.refl Text := funext plain
  rwa [names, renameAll_refl] at renamed

end Value

/-! ## What is seen of an answer -/

/-- A result in print: the value, or what is reported about the failure. -/
def Outcome.printed (v : Vocabulary) (outcome : Outcome) : Except Report Text :=
  (outcome.map (Value.print v)).mapError (Failure.report v)

/-- An answer in print: the results one by one, or what is reported about the refusal. -/
def Answer.printed (v : Vocabulary) (answer : Answer) :
    Except Report (List (Except Report Text)) :=
  (answer.map (List.map (Outcome.printed v))).mapError (Refusal.report v)

/-- The same refusal, or results that are alike one by one. -/
inductive AnswersAlike (d : Dictionary) (home : Pairing) : Answer → Answer → Prop where
  | refused (e : Refusal) : AnswersAlike d home (.error e) (.error e)
  | results {outcomes outcomes' : List Outcome}
      (alike : Machine.OutcomesAlike d home outcomes outcomes') :
      AnswersAlike d home (.ok outcomes) (.ok outcomes')

theorem AnswersAlike.printed_eq {d : Dictionary} (plain : d.Plain) {home : Pairing}
    {answer answer' : Answer} (alike : AnswersAlike d home answer answer') (v : Vocabulary) :
    Answer.printed v answer' = Answer.printed v answer := by
  cases alike with
  | refused e => rfl
  | results alike =>
    refine congrArg Except.ok ?_
    induction alike with
    | nil => rfl
    | cons first _ ih =>
      rw [List.map_cons, List.map_cons, ih]
      congr 1
      cases first with
      | value matching => exact congrArg Except.ok (matching.print_eq plain v)
      | failure about =>
        have kind := about.kind_eq
        have message := about.message_eq plain v
        exact congrArg Except.error (congrArg₂ Report.diagnosis kind message)

/-! ## What a text may change -/

namespace Machine

variable {m n : Machine} {fuel : Nat} {text : Text} {answer : Answer}

/-- Evaluating expressions writes to no scope that exists, except to their own. -/
theorem evalAll_keeps {scope : Nat} {xs : List Value} {outcomes : List Outcome}
    (ends : evalAll fuel scope xs m = some (outcomes, n)) :
    m.commons.store.Keeps scope n.commons.store := by
  induction xs generalizing m outcomes with
  | nil =>
    cases ends
    exact .refl scope _
  | cons x xs ih =>
    rw [evalAll_cons, eval_apply] at ends
    cases first : Argot.eval m.interpreter.rules fuel x scope 0 m.world with
    | none =>
      rw [first] at ends
      cases ends
    | some out =>
      rw [first] at ends
      obtain ⟨⟨ys, n⟩, rest, same⟩ := Option.map_eq_some_iff.1 ends
      cases same
      have keeps := eval_keeps m.interpreter.rules fuel x scope 0 m.world out.1 out.2 first
      exact keeps.trans (ih (m := m.inWorld out.2) rest)

/-- Running a text changes the global scope and no other, and nothing of the interpreter
but its generator and its cache. -/
structure Advances (m n : Machine) : Prop where
  keeps : m.commons.store.Keeps m.interpreter.global n.commons.store
  interpreter : ∃ generator cache,
    n.interpreter = { m.interpreter with generator := generator, cache := cache }
  faithful : n.Faithful

theorem Advances.global (h : m.Advances n) : n.interpreter.global = m.interpreter.global := by
  obtain ⟨generator, cache, same⟩ := h.interpreter
  rw [same]

theorem Advances.vocabulary (h : m.Advances n) :
    n.interpreter.vocabulary = m.interpreter.vocabulary := by
  obtain ⟨generator, cache, same⟩ := h.interpreter
  rw [same]

theorem Advances.trans {n₁ : Machine} (h : m.Advances n) (h' : n.Advances n₁) : m.Advances n₁ := by
  refine ⟨?_, ?_, h'.faithful⟩
  · have later := h'.keeps
    rw [h.global] at later
    exact h.keeps.trans later
  · obtain ⟨_, _, first⟩ := h.interpreter
    obtain ⟨generator, cache, second⟩ := h'.interpreter
    exact ⟨generator, cache, by rw [second, first]⟩

theorem advances_of_run (faithful : m.Faithful) (ends : run fuel text m = some (answer, n)) :
    m.Advances n := by
  have faithful' := faithful.run ends
  obtain ⟨cache, _, same⟩ := run_eq_runAnew faithful fuel text
  rw [same] at ends
  obtain ⟨⟨answer₁, n₁⟩, anew, same⟩ := Option.map_eq_some_iff.1 ends
  cases same
  cases read : readText m.interpreter.vocabulary text with
  | error e =>
    rw [runAnew_of_error fuel read] at anew
    cases anew
    exact ⟨.refl _ _, ⟨_, _, rfl⟩, faithful'⟩
  | ok xs =>
    rw [runAnew_of_forms fuel read] at anew
    obtain ⟨⟨ys, n₂⟩, evaluated, same⟩ := Option.map_eq_some_iff.1 anew
    cases same
    have keeps := evalAll_keeps evaluated
    have unchanged := interpreter_evalAll evaluated
    refine ⟨keeps, ⟨n₂.interpreter.generator, cache, ?_⟩, faithful'⟩
    show { n₂.interpreter with hash := m.interpreter.hash, cache := cache } = _
    rw [unchanged]

/-! ## Twins -/

variable {σ : Pairing} {m' : Machine}

/-- What stands above the bindings of the global scope on display. -/
def heading (m : Machine) : Option (Text × Bool) :=
  (m.commons.store.frame? m.interpreter.global).map fun f => (f.name, f.isGlobal)

/-- Machines of one vocabulary that correspond while everything is called what it is. -/
structure Twins (σ : Pairing) (m m' : Machine) : Prop extends Corresponds .plain σ m m' where
  vocabulary : m'.interpreter.vocabulary = m.interpreter.vocabulary
  global : pairs σ m m' m.interpreter.global m'.interpreter.global
  heading : m'.heading = m.heading
  faithful : m.Faithful
  faithful' : m'.Faithful

/-- Running a text anew. -/
theorem Twins.runAnew (twins : Twins σ m m') (fuel : Nat) (text : Text) :
    Ended .plain σ (AnswersAlike .plain) m m' (runAnew fuel text m) (runAnew fuel text m') := by
  have vocabulary := twins.vocabulary
  cases read : readText m.interpreter.vocabulary text with
  | error e =>
    rw [runAnew_of_error fuel read, runAnew_of_error fuel (vocabulary ▸ read)]
    exact .ended twins.toCorresponds (.refl _) (.refl _) (.refused e)
  | ok xs =>
    have source := allSource_of_readText read
    have evaluated := evalAll_corresponds twins.toCorresponds fuel
      (matchesAll_self Dictionary.plain_isPlain source Dictionary.plain.written) twins.global
    rw [runAnew_of_forms fuel read, runAnew_of_forms fuel (vocabulary ▸ read)]
    generalize evalAll fuel m.interpreter.global xs m = out at evaluated
    generalize evalAll fuel m'.interpreter.global xs m' = out' at evaluated
    cases evaluated with
    | exhausted => exact .exhausted
    | ended machines grows grows' alike => exact .ended machines grows grows' (.results alike)

/-- The same text has been run on both: the machines are twins again, and the answers are
alike. -/
structure Twins.Agrees (σ : Pairing) (m m' : Machine) (out out' : Answer × Machine) : Prop where
  twins : Twins σ out.2 out'.2
  grows : m.commons.store.Grows out.2.commons.store
  advances : m.Advances out.2
  advances' : m'.Advances out'.2
  alike : AnswersAlike .plain (pairs σ out.2 out'.2) out.1 out'.1

theorem Advances.heading_eq (h : m.Advances n)
    (there : m.interpreter.global < m.commons.store.size) : n.heading = m.heading := by
  obtain ⟨f, found⟩ := Store.frame?_isSome there
  obtain ⟨f', found', more⟩ := h.keeps.own f found
  rw [Machine.heading, Machine.heading, h.global, found, found']
  exact congrArg some (Prod.ext more.name more.isGlobal)

/-- Given the same text, twins agree. -/
theorem Twins.run (twins : Twins σ m m') (fuel : Nat) (text : Text) :
    Option.Rel (Agrees σ m m') (run fuel text m) (run fuel text m') := by
  have anew := twins.runAnew fuel text
  obtain ⟨cache, _, same⟩ := run_eq_runAnew twins.faithful fuel text
  obtain ⟨cache', _, same'⟩ := run_eq_runAnew twins.faithful' fuel text
  generalize Machine.runAnew fuel text m = out at anew same
  generalize Machine.runAnew fuel text m' = out' at anew same'
  cases anew with
  | exhausted =>
    rw [same, same']
    exact .none
  | ended machines grows grows' alike =>
    have advances := advances_of_run twins.faithful same
    have advances' := advances_of_run twins.faithful' same'
    rw [same, same']
    refine .some ⟨⟨⟨machines.rules, machines.world⟩, ?_, ?_, ?_, ?_, ?_⟩, grows, advances,
      advances', alike⟩
    · rw [advances'.vocabulary, advances.vocabulary, twins.vocabulary]
    · rw [advances.global, advances'.global]
      exact Pairing.within_mono grows.size_le grows'.size_le _ _ twins.global
    · rw [advances'.heading_eq twins.global.2.2, advances.heading_eq twins.global.2.1,
        twins.heading]
    · exact advances.faithful
    · exact advances'.faithful

/-- On display, the entries of a scope count for what they print. -/
theorem flatMap_print {v : Vocabulary} {bindings bindings' : NameMap Value}
    (same : bindings'.map (fun _ x => x.print v) = bindings.map fun _ x => x.print v)
    (line : Text → Text → Text) :
    (bindings'.entries.flatMap fun e => line e.1 (e.2.print v)) =
      bindings.entries.flatMap fun e => line e.1 (e.2.print v) := by
  have lines (b : NameMap Value) : (b.entries.flatMap fun e => line e.1 (e.2.print v)) =
      (b.map fun _ x => x.print v).entries.flatMap fun e => line e.1 e.2 :=
    (List.flatMap_map (fun e => (e.1, e.2.print v)) (fun e => line e.1 e.2) b.entries).symm
  rw [lines, lines, same]

/-- Global scopes with the same heading that bind matching values to the same names look the
same on display. -/
theorem renderGlobal_eq_of_bindings {d : Dictionary} (plain : d.Plain) {home : Pairing}
    (vocabulary : m'.interpreter.vocabulary = m.interpreter.vocabulary)
    (headings : m'.heading = m.heading)
    (bound : ∀ n, Option.Rel (Matches d home) (m.commons.store.local? m.interpreter.global n)
      (m'.commons.store.local? m'.interpreter.global n)) (label : Text) :
    m'.renderGlobal label = m.renderGlobal label := by
  unfold renderGlobal Store.render
  rw [Machine.heading, Machine.heading] at headings
  cases found : m.commons.store.frame? m.interpreter.global with
  | none =>
    rw [found, Option.map_none, Option.map_eq_none_iff] at headings
    rw [headings]
  | some f =>
    rw [found] at headings
    obtain ⟨f', found', headings⟩ := Option.map_eq_some_iff.1 headings
    obtain ⟨name, isGlobal⟩ := Prod.mk.inj headings
    -- entries are kept in order, so it is enough that each name prints the same
    have printed : f'.bindings.map (fun _ x => x.print m.interpreter.vocabulary) =
        f.bindings.map fun _ x => x.print m.interpreter.vocabulary := by
      apply NameMap.ext_find?
      intro n
      have here := bound n
      rw [Store.local?, Store.local?, found, found', Option.bind_some, Option.bind_some] at here
      rw [NameMap.find?_map, NameMap.find?_map]
      generalize f.bindings.find? n = x at here
      generalize f'.bindings.find? n = x' at here
      cases here with
      | none => rfl
      | some matching => exact congrArg some (matching.print_eq plain _)
    have lines := flatMap_print printed fun name shown =>
      Text.ofString "   " ++ name ++ Text.ofString " -> " ++ shown ++ Text.newline
    rw [found', vocabulary]
    dsimp only
    rw [name, isGlobal]
    exact congrArg _ lines

/-- The global scopes of twins look the same on display. -/
theorem Twins.renderGlobal_eq (twins : Twins σ m m') (label : Text) :
    m'.renderGlobal label = m.renderGlobal label :=
  renderGlobal_eq_of_bindings Dictionary.plain_isPlain twins.vocabulary twins.heading
    (twins.world.store.binding twins.global.1) label

end Machine

/-! ## Texts one after another -/

/-- A text to be run, and how deep evaluations may nest in it. -/
structure Call where
  fuel : Nat
  text : Text

namespace Machine

/-- Runs texts one after another. -/
def answerAll : List Call → Act (List Answer)
  | [] => fun m => some ([], m)
  | call :: rest => fun m =>
    (run call.fuel call.text m).bind fun out =>
      (answerAll rest out.2).map fun outs => (out.1 :: outs.1, outs.2)

theorem answerAll_cons (call : Call) (rest : List Call) (m : Machine) :
    answerAll (call :: rest) m =
      (run call.fuel call.text m).bind fun out =>
        (answerAll rest out.2).map fun outs => (out.1 :: outs.1, outs.2) := rfl

/-- What running one text keeps up between two machines that print the same answer to it, running
texts one after another keeps up. -/
theorem answerAll_rel {R : Machine → Machine → Prop}
    (step : ∀ m m' fuel text, R m m' →
      Option.Rel
        (fun out out' => (∀ v, Answer.printed v out'.1 = Answer.printed v out.1) ∧ R out.2 out'.2)
        (run fuel text m) (run fuel text m'))
    {m m' : Machine} (h : R m m') (calls : List Call) :
    Option.Rel
      (fun out out' => (∀ v, out'.1.map (Answer.printed v) = out.1.map (Answer.printed v)) ∧
        R out.2 out'.2)
      (answerAll calls m) (answerAll calls m') := by
  induction calls generalizing m m' with
  | nil => exact .some ⟨fun _ => rfl, h⟩
  | cons call rest ih =>
    have first := step m m' call.fuel call.text h
    rw [answerAll_cons, answerAll_cons]
    generalize run call.fuel call.text m = out at first
    generalize run call.fuel call.text m' = out' at first
    cases first with
    | none => exact .none
    | @some out out' agrees =>
      have later := ih agrees.2
      simp only [Option.bind_some]
      generalize answerAll rest out.2 = outs at later
      generalize answerAll rest out'.2 = outs' at later
      cases later with
      | none => exact .none
      | some others =>
        refine .some ⟨fun v => ?_, others.2⟩
        rw [List.map_cons, List.map_cons, agrees.1 v, others.1 v]

variable {σ : Pairing} {m m' : Machine}

/-- The same texts have been run on both: the machines are twins again, and the answers
are the same in print. -/
structure Twins.AgreesOnAll (σ : Pairing) (m m' : Machine) (out out' : List Answer × Machine) :
    Prop where
  twins : Twins σ out.2 out'.2
  grows : m.commons.store.Grows out.2.commons.store
  advances : m.Advances out.2
  printed : ∀ v, out'.1.map (Answer.printed v) = out.1.map (Answer.printed v)

/-- Given the same texts one after another, twins agree. -/
theorem Twins.answerAll (twins : Twins σ m m') (calls : List Call) :
    Option.Rel (AgreesOnAll σ m m') (answerAll calls m) (answerAll calls m') := by
  have self : m.Advances m := ⟨.refl _ _, ⟨_, _, rfl⟩, twins.faithful⟩
  have agrees := answerAll_rel
    (R := fun n n' => Twins σ n n' ∧ m.commons.store.Grows n.commons.store ∧ m.Advances n) ?_
    ⟨twins, .refl m.commons.store, self⟩ calls
  · generalize Machine.answerAll calls m = out at agrees
    generalize Machine.answerAll calls m' = out' at agrees
    cases agrees with
    | none => exact .none
    | some agrees => exact .some ⟨agrees.2.1, agrees.2.2.1, agrees.2.2.2, agrees.1⟩
  · rintro n n' fuel text ⟨twins, grows, advances⟩
    have ran := twins.run fuel text
    generalize Machine.run fuel text n = out at ran
    generalize Machine.run fuel text n' = out' at ran
    cases ran with
    | none => exact .none
    | some agrees =>
      exact .some ⟨agrees.alike.printed_eq Dictionary.plain_isPlain, agrees.twins,
        grows.trans agrees.grows, advances.trans agrees.advances⟩

end Machine
end Argot
