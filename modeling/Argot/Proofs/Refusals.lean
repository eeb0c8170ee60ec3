import Argot.Proofs.Clearing
import Argot.Proofs.Dialogues

set_option autoImplicit false

/-!
# Texts that are refused

A text without tokens is refused, and so is one of which some part cannot be read.  The cache is
asked before either is looked at, so that a refusal could depend on what has been run before.  It
does not: a faithful cache remembers only texts that can be read, each with its own forms, and
another text of the same hash is not taken for it.  A refused text is therefore always looked up in
vain (`ParseCache.Faithful.get_of_refused`), and all that it leaves behind is one more miss
(`Machine.run_of_refused`).

A text that is not refused has its forms evaluated in order, one result for each
(`Machine.answersInOrder_of_evalAll`).
-/

namespace Argot

/-! ## Texts that cannot be read -/

section Reading

variable {v : Vocabulary} {text : Text}

/-- Reading goes through forms and then comes to the end of the tokens or to one error. -/
theorem exists_readAllFrom_eq (v : Vocabulary) (stack : List Pending) (tokens : List Text) :
    ∃ xs : List Value, readAllFrom v stack tokens = xs.map .ok ∨
      ∃ e, readAllFrom v stack tokens = xs.map .ok ++ [.error e] := by
  induction tokens generalizing stack with
  | nil =>
    refine ⟨[], ?_⟩
    rw [readAllFrom]
    split
    · exact .inl rfl
    · exact .inr ⟨_, rfl⟩
  | cons tok rest ih =>
    rw [readAllFrom]
    cases readToken v stack tok with
    | shift stack' => exact ih stack'
    | fail e => exact ⟨[], .inr ⟨e, rfl⟩⟩
    | emit form =>
      obtain ⟨xs, whole | ⟨e, broken⟩⟩ := ih []
      · exact ⟨form :: xs, .inl (congrArg (.ok form :: ·) whole)⟩
      · exact ⟨form :: xs, .inr ⟨e, congrArg (.ok form :: ·) broken⟩⟩

theorem allForms_of_error (xs : List Value) (e : ReadError) :
    allForms (xs.map .ok ++ [.error e]) = .error e := by
  induction xs with
  | nil => rfl
  | cons x xs ih =>
    rw [List.map_cons, List.cons_append, allForms, ih]
    rfl

theorem error_not_mem_map_ok (e : ReadError) (xs : List Value) :
    Except.error e ∉ xs.map Except.ok := by
  intro member
  obtain ⟨_, _, impossible⟩ := List.mem_map.1 member
  cases impossible

theorem allForms_readAll_eq_error_iff {tokens : List Text} {e : ReadError} :
    allForms (readAll v tokens) = .error e ↔ .error e ∈ readAll v tokens := by
  obtain ⟨xs, whole | ⟨e', broken⟩⟩ := exists_readAllFrom_eq v [] tokens
  · have read : readAll v tokens = xs.map .ok := whole
    rw [read, allForms_eq_ok_iff.2 rfl]
    exact iff_of_false nofun (error_not_mem_map_ok e xs)
  · have read : readAll v tokens = xs.map .ok ++ [.error e'] := broken
    rw [read, allForms_of_error, List.mem_append, List.mem_singleton,
      or_iff_right (error_not_mem_map_ok e xs), Except.error.injEq, Except.error.injEq, eq_comm]

theorem readText_eq_noInput_iff : readText v text = .error .noInput ↔ tokenize v text = [] := by
  unfold readText
  by_cases empty : tokenize v text = []
  · simp [empty]
  · simp only [List.isEmpty_iff, if_neg empty]
    cases allForms (readAll v (tokenize v text)) <;> simp [empty]

theorem readText_eq_malformed_iff {e : ReadError} :
    readText v text = .error (.malformed e) ↔ .error e ∈ readAll v (tokenize v text) := by
  rw [← allForms_readAll_eq_error_iff]
  unfold readText
  by_cases empty : tokenize v text = []
  · simp [empty, readAll_nil, allForms]
  · simp only [List.isEmpty_iff, if_neg empty]
    cases allForms (readAll v (tokenize v text)) <;> simp

/-- A text with tokens of which none is at fault is read as forms. -/
theorem exists_readText_eq_ok (some : tokenize v text ≠ [])
    (faultless : ∀ e, .error e ∉ readAll v (tokenize v text)) :
    ∃ forms, readText v text = .ok forms := by
  cases read : readText v text with
  | ok forms => exact ⟨forms, rfl⟩
  | error r =>
    cases r with
    | noInput => exact absurd (readText_eq_noInput_iff.1 read) some
    | malformed e => exact absurd (readText_eq_malformed_iff.1 read) (faultless e)

end Reading

/-! ## Looking up in vain -/

/-- The cache after a lookup in vain, which is counted unless the cache is turned off. -/
def ParseCache.afterMiss (c : ParseCache) : ParseCache :=
  { c with misses := if c.capacity = 0 then c.misses else c.misses + 1 }

theorem ParseCache.eq_afterMiss_of_get {hash : Text → UInt64} {text : Text} {c c' : ParseCache}
    (miss : c.get hash text = (none, c')) : c' = c.afterMiss := by
  unfold get at miss
  split at miss
  · rename_i off
    cases miss
    rw [afterMiss, if_pos off]
  · rename_i on
    split at miss
    · cases miss
    · cases miss
      rw [afterMiss, if_neg on]

/-- A refused text is looked up in vain. -/
theorem ParseCache.Faithful.get_of_refused {v : Vocabulary} {c : ParseCache}
    {hash : Text → UInt64} {text : Text} {r : Refusal} (faithful : c.Faithful v)
    (refused : readText v text = .error r) : c.get hash text = (none, c.afterMiss) := by
  cases got : c.get hash text with
  | mk forms c' =>
    cases forms with
    | none => rw [eq_afterMiss_of_get got]
    | some xs =>
      -- the slot would hold the forms of this very text, which has none
      have read := (faithful.of_hit got).1
      rw [refused] at read
      cases read

theorem Interpreter.read_of_refused {i : Interpreter} {text : Text} {r : Refusal}
    (faithful : i.cache.Faithful i.vocabulary) (refused : readText i.vocabulary text = .error r) :
    i.read text = (.error r, { i with cache := i.cache.afterMiss }) := by
  rw [read, faithful.get_of_refused refused]
  simp only [refused]

namespace Machine

/-- The machine after a text was looked up in vain. -/
def afterMiss (m : Machine) : Machine :=
  { m with interpreter := { m.interpreter with cache := m.interpreter.cache.afterMiss } }

section Refused

variable {m n : Machine} {text : Text} {r : Refusal}

/-- **A refused text changes nothing** but the count of misses. -/
theorem run_of_refused (faithful : m.Faithful) (fuel : Nat)
    (refused : readText m.interpreter.vocabulary text = .error r) :
    run fuel text m = some (.error r, m.afterMiss) :=
  run_of_read_error fuel (Interpreter.read_of_refused faithful refused)

theorem readText_of_run_refused (faithful : m.Faithful) {fuel : Nat}
    (ran : run fuel text m = some (.error r, n)) :
    readText m.interpreter.vocabulary text = .error r := by
  cases read : readText m.interpreter.vocabulary text with
  | error r' =>
    rw [run_of_refused faithful fuel read] at ran
    cases ran
    rfl
  | ok forms =>
    obtain ⟨cache, _, evaluated⟩ := run_of_forms faithful fuel read
    rw [evaluated] at ran
    obtain ⟨out, _, same⟩ := Option.map_eq_some_iff.1 ran
    cases same

theorem run_refused_iff (faithful : m.Faithful) {fuel : Nat} :
    (∃ n, run fuel text m = some (.error r, n)) ↔
      readText m.interpreter.vocabulary text = .error r :=
  ⟨fun ⟨_, ran⟩ => readText_of_run_refused faithful ran,
    fun refused => ⟨_, run_of_refused faithful fuel refused⟩⟩

/-- No history makes a refused text acceptable, nor does what other interpreters do
meanwhile. -/
theorem run_of_refused_before (faithful : m.Faithful)
    (refused : readText m.interpreter.vocabulary text = .error r) {history : List Instruction}
    {answers : List (Option Answer)} (ends : carryOutAll history m = some (answers, n))
    (c : Commons) (fuel : Nat) :
    run fuel text { n with commons := c } = some (.error r, afterMiss { n with commons := c }) := by
  -- whether a text is refused depends on nothing but the vocabulary, which no history changes
  obtain ⟨charter, after⟩ := charter_carryOutAll faithful ends
  have vocabulary : n.interpreter.vocabulary = m.interpreter.vocabulary :=
    congrArg Charter.vocabulary charter
  rw [← vocabulary] at refused
  exact run_of_refused (m := { n with commons := c }) after fuel refused

end Refused

/-! ## One result for each form -/

variable {fuel scope : Nat} {xs : List Value} {ys : List Outcome} {m n : Machine}

/-- There is one result for each form, and each is what the form evaluates to in the machine that
the forms before it leave. -/
def AnswersInOrder (fuel scope : Nat) (xs : List Value) (ys : List Outcome) (m : Machine) : Prop :=
  ys.length = xs.length ∧ ∀ i x, xs[i]? = some x → ∃ k y k',
    evalAll fuel scope (xs.take i) m = some (ys.take i, k) ∧
    eval fuel x scope k = some (y, k') ∧ ys[i]? = some y

theorem answersInOrder_of_evalAll (ends : evalAll fuel scope xs m = some (ys, n)) :
    AnswersInOrder fuel scope xs ys m := by
  induction xs generalizing m ys with
  | nil =>
    cases ends
    exact ⟨rfl, nofun⟩
  | cons x xs ih =>
    rw [evalAll_cons] at ends
    obtain ⟨⟨y, k⟩, first, rest⟩ := Option.bind_eq_some_iff.1 ends
    obtain ⟨⟨ys, k'⟩, later, same⟩ := Option.map_eq_some_iff.1 rest
    cases same
    obtain ⟨length, others⟩ := ih later
    refine ⟨congrArg (· + 1) length, ?_⟩
    intro i z here
    cases i with
    | zero =>
      cases here
      exact ⟨m, y, k, rfl, first, rfl⟩
    | succ i =>
      obtain ⟨k₁, y₁, k₂, before, evaluated, found⟩ := others i z here
      refine ⟨k₁, y₁, k₂, ?_, evaluated, found⟩
      rw [List.take_succ_cons, evalAll_cons, first, Option.bind_some, before]
      rfl

/-- Evaluation has no end if and only if one of the forms has none after those before it. -/
theorem evalAll_eq_none_iff :
    evalAll fuel scope xs m = none ↔ ∃ i x ys k, xs[i]? = some x ∧
      evalAll fuel scope (xs.take i) m = some (ys, k) ∧ eval fuel x scope k = none := by
  constructor
  · intro endless
    induction xs generalizing m with
    | nil => cases endless
    | cons x xs ih =>
      rw [evalAll_cons] at endless
      cases first : eval fuel x scope m with
      | none => exact ⟨0, x, [], m, rfl, rfl, first⟩
      | some out =>
        rw [first, Option.bind_some, Option.map_eq_none_iff] at endless
        obtain ⟨i, z, ys, k, here, before, stuck⟩ := ih endless
        refine ⟨i + 1, z, out.1 :: ys, k, here, ?_, stuck⟩
        rw [List.take_succ_cons, evalAll_cons, first, Option.bind_some, before]
        rfl
  · rintro ⟨i, x, ys, k, here, before, stuck⟩
    obtain ⟨inside, rfl⟩ := List.getElem?_eq_some_iff.1 here
    rw [← List.take_append_drop i xs, evalAll_append, before, Option.bind_some,
      List.drop_eq_getElem_cons inside, evalAll_cons, stuck]
    rfl

end Machine

/-! ## On display -/

section Display

variable {v : Vocabulary} {f : Format} {outcomes : List Outcome}

theorem outcomeLines_cons (v : Vocabulary) (f : Format) (y : Outcome) (ys : List Outcome) :
    outcomeLines v f (y :: ys) =
      (Outcome.line v f y).bind fun line => (outcomeLines v f ys).map (line :: ·) := by
  rw [outcomeLines]
  cases Outcome.line v f y with
  | error c => rfl
  | ok line => cases outcomeLines v f ys <;> rfl

/-- Results are displayed if and only if each of them has a line. -/
theorem outcomeLines_eq_ok_iff {lines : List Text} :
    outcomeLines v f outcomes = .ok lines ↔ outcomes.map (Outcome.line v f) = lines.map .ok := by
  induction outcomes generalizing lines with
  | nil => cases lines <;> simp [outcomeLines]
  | cons y ys ih =>
    rw [outcomeLines_cons]
    cases lines with
    | nil =>
      cases Outcome.line v f y <;> cases outcomeLines v f ys <;> simp [Except.bind, Except.map]
    | cons line lines =>
      rw [List.map_cons, List.map_cons, List.cons.injEq, ← ih]
      cases Outcome.line v f y <;> cases outcomeLines v f ys <;> simp [Except.bind, Except.map]

/-- Otherwise the complaint is about the first result that has none. -/
theorem outcomeLines_eq_error_iff {c : Complaint} :
    outcomeLines v f outcomes = .error c ↔ ∃ before y after, outcomes = before ++ y :: after ∧
      (∀ z ∈ before, ∃ line, Outcome.line v f z = .ok line) ∧ Outcome.line v f y = .error c := by
  constructor
  · intro fails
    induction outcomes with
    | nil => cases fails
    | cons y ys ih =>
      rw [outcomeLines_cons] at fails
      cases here : Outcome.line v f y with
      | error c' =>
        rw [here] at fails
        cases fails
        exact ⟨[], y, ys, rfl, nofun, here⟩
      | ok line =>
        rw [here] at fails
        cases later : outcomeLines v f ys with
        | ok lines =>
          rw [later] at fails
          cases fails
        | error c' =>
          rw [later] at fails
          cases fails
          obtain ⟨before, z, after, rfl, shown, wrong⟩ := ih later
          exact ⟨y :: before, z, after, rfl, List.forall_mem_cons.2 ⟨⟨line, here⟩, shown⟩, wrong⟩
  · rintro ⟨before, y, after, rfl, shown, wrong⟩
    induction before with
    | nil =>
      rw [List.nil_append, outcomeLines_cons, wrong]
      rfl
    | cons z before ih =>
      obtain ⟨⟨line, here⟩, others⟩ := List.forall_mem_cons.1 shown
      rw [List.cons_append, outcomeLines_cons, here, ih others]
      rfl

theorem stage_of_line_eq_error {y : Outcome} {c : Complaint}
    (fails : Outcome.line v f y = .error c) : c.stage = .evaluator := by
  unfold Outcome.line at fails
  split at fails
  · cases fails
    rfl
  · split at fails
    · cases fails
    · cases fails
      rfl

end Display

namespace Machine

variable {m n : Machine} {text : Text} {fuel : Nat} {f : Format}
variable {out : Except Complaint (List Text)}

/-- What is displayed of a run are the lines of its answer, in the vocabulary of the
interpreter. -/
theorem runOutput_eq (fuel : Nat) (f : Format) (text : Text) (m : Machine) :
    runOutput fuel f text m =
      (run fuel text m).map fun out => (runLines m.interpreter.vocabulary f out.1, out.2) := by
  rw [runOutput_apply]
  cases ran : run fuel text m with
  | none => rfl
  | some out => rw [Option.map_some, Option.map_some, vocabulary_run ran]

theorem runOutput_eq_some_iff : runOutput fuel f text m = some (out, n) ↔
    ∃ answer, run fuel text m = some (answer, n) ∧
      runLines m.interpreter.vocabulary f answer = out := by
  rw [runOutput_eq, Option.map_eq_some_iff]
  constructor
  · rintro ⟨⟨answer, k⟩, ran, same⟩
    cases same
    exact ⟨answer, ran, rfl⟩
  · rintro ⟨answer, ran, rfl⟩
    exact ⟨(answer, n), ran, rfl⟩

theorem out_of_refused (faithful : m.Faithful) {r : Refusal}
    (refused : readText m.interpreter.vocabulary text = .error r)
    (ends : runOutput fuel f text m = some (out, n)) :
    out = .error (r.complaint m.interpreter.vocabulary) := by
  obtain ⟨answer, ran, rfl⟩ := runOutput_eq_some_iff.1 ends
  rw [run_of_refused faithful fuel refused] at ran
  cases ran
  rfl

/-- What is displayed of a text that is not refused: one line for each form, or what the evaluator
has to say. -/
theorem out_of_forms (faithful : m.Faithful) {xs : List Value}
    (read : readText m.interpreter.vocabulary text = .ok xs)
    (ends : runOutput fuel f text m = some (out, n)) :
    (∀ c, out = .error c → c.stage = .evaluator) ∧
      ∀ lines, out = .ok lines → lines.length = xs.length := by
  obtain ⟨answer, ran, rfl⟩ := runOutput_eq_some_iff.1 ends
  obtain ⟨cache, _, evaluated⟩ := run_of_forms faithful fuel read
  rw [evaluated] at ran
  obtain ⟨⟨ys, k⟩, done, same⟩ := Option.map_eq_some_iff.1 ran
  cases same
  constructor
  · intro c fails
    obtain ⟨_, y, _, _, _, wrong⟩ := outcomeLines_eq_error_iff.1 fails
    exact stage_of_line_eq_error wrong
  · intro lines shown
    have each := congrArg List.length (outcomeLines_eq_ok_iff.1 shown)
    rw [List.length_map, List.length_map] at each
    exact each.symm.trans (answersInOrder_of_evalAll done).1

end Machine

open Machine

/-- **Refused texts change nothing.**  Take an interpreter in any state that it can be in, and any
text.

* Running the text is refused for want of input if and only if it has no tokens, and for an error
  if and only if reading all its tokens gives that error.
* A refusal leaves the machine as it was, all scopes, registered functions and remembered texts in
  their order included; only the misses are one more, unless the cache is turned off.  Whatever the
  interpreter is told to do then, and whatever else happens to what it shares with others, the same
  text is refused for the same reason.
* Any other text is answered with one result for each form, in order, unless the evaluation of one
  of them, after those before it, does not end.
* On display, in any format, a text without tokens is a failure of the tokenizer, and a text with
  an error is a failure of the parser with that error.  A failure with any other text is one of the
  evaluator, and otherwise there is a line for each form.  A failure is displayed as a single
  line. -/
theorem refused_texts_change_nothing (m : Machine) (arises : m.Arises) (text : Text) (fuel : Nat) :
    let v := m.interpreter.vocabulary
    let tokens := m.interpreter.tokenize text
    ((∃ n, run fuel text m = some (.error .noInput, n)) ↔ tokens = []) ∧
    (∀ e, (∃ n, run fuel text m = some (.error (.malformed e), n)) ↔ .error e ∈ readAll v tokens) ∧
    (∀ r n, run fuel text m = some (.error r, n) →
      n = m.afterMiss ∧
      ∀ history answers k c fuel', carryOutAll history n = some (answers, k) →
        run fuel' text { k with commons := c } =
          some (.error r, afterMiss { k with commons := c })) ∧
    (tokens ≠ [] → (∀ e, .error e ∉ readAll v tokens) →
      ∃ xs, readAll v tokens = xs.map .ok ∧
        (run fuel text m = none ↔ ∃ i x ys k, xs[i]? = some x ∧
          evalAll fuel m.interpreter.global (xs.take i) m = some (ys, k) ∧
          Machine.eval fuel x m.interpreter.global k = none) ∧
        ∀ answer n, run fuel text m = some (answer, n) →
          ∃ ys, answer = .ok ys ∧ AnswersInOrder fuel m.interpreter.global xs ys m) ∧
    ∀ f, (runOutput fuel f text m = none ↔ run fuel text m = none) ∧
      ∀ out n, runOutput fuel f text m = some (out, n) →
        (tokens = [] → out = .error ⟨.tokenizer, "no input"⟩) ∧
        (∀ e, .error e ∈ readAll v tokens → out = .error ⟨.parser, e.message v⟩) ∧
        (tokens ≠ [] → (∀ e, .error e ∉ readAll v tokens) →
          (∀ c, out = .error c → c.stage = .evaluator) ∧
          ∀ lines, out = .ok lines → lines.length = (readAll v tokens).length) ∧
        ∀ c, out = .error c → displayed out = [c.line] := by
  intro v tokens
  have faithful := arises.faithful
  refine ⟨?_, ?_, ?_, ?_, ?_⟩
  · exact (run_refused_iff faithful).trans readText_eq_noInput_iff
  · intro e
    exact (run_refused_iff faithful).trans readText_eq_malformed_iff
  · intro r n ran
    have refused := readText_of_run_refused faithful ran
    rw [run_of_refused faithful fuel refused] at ran
    cases ran
    refine ⟨rfl, ?_⟩
    intro history answers k c fuel' ends
    have after : m.afterMiss.Faithful := faithful
    exact run_of_refused_before after refused ends c fuel'
  · intro some faultless
    obtain ⟨xs, read⟩ := exists_readText_eq_ok some faultless
    obtain ⟨cache, _, ran⟩ := run_of_forms faithful fuel read
    refine ⟨xs, (readText_eq_ok_iff.1 read).2, ?_, ?_⟩
    · rw [ran, Option.map_eq_none_iff]
      exact evalAll_eq_none_iff
    · intro answer n ends
      rw [ran] at ends
      obtain ⟨⟨ys, k⟩, evaluated, same⟩ := Option.map_eq_some_iff.1 ends
      cases same
      exact ⟨ys, rfl, answersInOrder_of_evalAll evaluated⟩
  · intro f
    refine ⟨by rw [runOutput_eq, Option.map_eq_none_iff], ?_⟩
    intro out n ends
    refine ⟨?_, ?_, ?_, ?_⟩
    · intro empty
      exact out_of_refused faithful (readText_eq_noInput_iff.2 empty) ends
    · intro e wrong
      exact out_of_refused faithful (readText_eq_malformed_iff.2 wrong) ends
    · intro some faultless
      obtain ⟨xs, read⟩ := exists_readText_eq_ok some faultless
      have entries : readAll v tokens = xs.map .ok := (readText_eq_ok_iff.1 read).2
      rw [entries, List.length_map]
      exact out_of_forms faithful read ends
    · rintro c rfl
      rfl

/-- A list that is closed without being opened, after a form that is never evaluated; it is refused
again after the interpreter has been cleared and been told to trace. -/
theorem unexpected_close_is_refused :
    let m := Machine.create (.standard .words) ∅
    let text : Text := "(var n true) )"
    let k := (m.afterMiss.clear).setTracing true
    run 10 text m = some (.error (.malformed .unexpectedClose), m.afterMiss) ∧
      m.afterMiss.interpreter.cache.misses = 1 ∧
      run 20 text k = some (.error (.malformed .unexpectedClose), k.afterMiss) ∧
      runOutput 10 .json text m =
        some (.error ⟨.parser, ReadError.message .words .unexpectedClose⟩, m.afterMiss) := by
  intro m text k
  obtain ⟨_, malformed, unchanged, _, displayed⟩ :=
    refused_texts_change_nothing m (.create _ _) text 10
  have wrong : .error .unexpectedClose ∈ readAll .words (tokenize .words text) := by
    have kinds : .error .unexpectedClose ∈
        (readAll .words (tokenize .words text)).map (Except.map fun _ => ()) := by
      decide +kernel
    obtain ⟨entry, member, same⟩ := List.mem_map.1 kinds
    cases entry with
    | ok x => cases same
    | error e =>
      cases same
      exact member
  obtain ⟨n, ran⟩ := (malformed .unexpectedClose).2 wrong
  obtain ⟨rfl, again⟩ := unchanged _ n ran
  refine ⟨ran, rfl, again [.operation .clear, .setTracing true] _ k k.commons 20 rfl, ?_⟩
  obtain ⟨answered, stages⟩ := displayed .json
  cases shown : runOutput 10 .json text m with
  | none =>
    rw [answered.1 shown] at ran
    cases ran
  | some out =>
    obtain ⟨out, n⟩ := out
    obtain ⟨answer, same, _⟩ := runOutput_eq_some_iff.1 shown
    rw [ran] at same
    cases same
    exact congrArg (fun o => some (o, m.afterMiss)) ((stages out _ shown).2.1 _ wrong)

end Argot
