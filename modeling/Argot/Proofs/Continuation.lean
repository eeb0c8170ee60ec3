import Argot.Proofs.Grammar

set_option autoImplicit false

/-!
# Deciding whether a text goes on

`balance` counts open lists and looks at the last token; the reader keeps a stack of pending
forms.  `pendingAfter` is the stack that the reader is left with, and it is what ties the two
together (`balanceFrom_of_pendingAfter`): as long as the reader has not failed, the counter is
the number of lists on the stack, and the last token is a quote mark exactly when a quote is on
top.  How reading ends depends only on the stack that is left (`readAllFrom_eq_forms`), and every
stack can be finished (`exists_completion`).

The reader only fails at a closing token with no list to close, and there the counter fails as
well unless the token stands right behind a quote mark: the counter does not know that the
quote is still waiting for its form.
-/

namespace Argot

variable {v : Vocabulary}

/-! ## The stack that the reader is left with -/

/-- The stack after a step, unless the step fails. -/
def ReadStep.stack? : ReadStep → Option (List Pending)
  | .shift stack => some stack
  | .emit _ => some []
  | .fail _ => none

/-- The stack after the tokens, unless the reader fails on the way. -/
def pendingAfter (v : Vocabulary) : List Pending → List Text → Option (List Pending)
  | stack, [] => some stack
  | stack, tok :: rest => (readToken v stack tok).stack?.bind (pendingAfter v · rest)

theorem pendingAfter_append (stack : List Pending) (first second : List Text) :
    pendingAfter v stack (first ++ second) =
      (pendingAfter v stack first).bind (pendingAfter v · second) := by
  induction first generalizing stack with
  | nil => rfl
  | cons tok rest ih =>
    rw [List.cons_append, pendingAfter, pendingAfter, Option.bind_assoc]
    exact Option.bind_congr fun stack' _ => ih stack'

/-! ## Steps of the reader -/

/-- How many of the pending forms are lists. -/
def openLists : List Pending → Nat
  | [] => 0
  | .list _ :: stack => openLists stack + 1
  | .quote :: stack => openLists stack

/-- Whether the innermost pending form is a quote. -/
def awaitsForm : List Pending → Bool
  | .quote :: _ => true
  | _ => false

/-- With no list open and no quote on top, nothing is pending. -/
theorem eq_nil_of_settled {stack : List Pending} (lists : openLists stack = 0)
    (form : awaitsForm stack = false) : stack = [] := by
  match stack with
  | [] => rfl
  | .list _ :: _ => exact absurd lists (Nat.succ_ne_zero _)
  | .quote :: _ => cases form

/-- A finished form fills the quotes around it and leaves the lists alone. -/
theorem stack?_deliver (x : Value) (stack : List Pending) :
    ∃ left, (deliver x stack).stack? = some left ∧ openLists left = openLists stack ∧
      awaitsForm left = false := by
  induction stack generalizing x with
  | nil => exact ⟨[], rfl, rfl, rfl⟩
  | cons p stack ih =>
    cases p with
    | list items => exact ⟨_, rfl, rfl, rfl⟩
    | quote => exact ih (.quote x)

theorem readToken_close_outside (distinct : v.DelimitersDiffer) {stack : List Pending}
    (top : stack = [] ∨ awaitsForm stack = true) :
    readToken v stack v.listClose = .fail .unexpectedClose := by
  have failed : startForm v stack v.listClose = .fail .unexpectedClose := by
    simp [startForm, distinct.open_ne_close.symm, distinct.close_ne_quote]
  cases stack with
  | nil => exact failed
  | cons pending outer =>
    cases pending with
    | quote => exact failed
    | list items => rcases top with top | top <;> cases top

/-- A token that the reader does not take closes nothing. -/
theorem close_of_failed_step {stack : List Pending} {tok : Text}
    (step : (readToken v stack tok).stack? = none) :
    tok = v.listClose ∧ (stack = [] ∨ awaitsForm stack = true) := by
  have delivered (x : Value) (outer : List Pending) : (deliver x outer).stack? ≠ none := by
    obtain ⟨left, shown, _⟩ := stack?_deliver x outer
    simp [shown]
  have closes : tok = v.listClose := by
    refine Decidable.byContradiction fun other => ?_
    rw [readToken_of_ne_close stack other, startForm] at step
    split at step
    · cases step
    split at step
    · cases step
    · exact delivered _ _ step
  refine ⟨closes, ?_⟩
  cases stack with
  | nil => exact .inl rfl
  | cons pending outer =>
    cases pending with
    | quote => exact .inr rfl
    | list items =>
      rw [closes, readToken_close] at step
      exact absurd step (delivered _ _)

/-- The error that reading ends in, by the stack that is left. -/
def finalError? : Option (List Pending) → Option ReadError
  | none => some .unexpectedClose
  | some [] => none
  | some (p :: stack) => some (endError (p :: stack))

theorem finalError?_eq_none_iff {left : Option (List Pending)} :
    finalError? left = none ↔ left = some [] := by
  match left with
  | none => simp [finalError?]
  | some [] => simp [finalError?]
  | some (_ :: _) => simp [finalError?]

/-- Reading returns forms, and behind them at most the error that the stack tells. -/
theorem readAllFrom_eq_forms (distinct : v.DelimitersDiffer) (stack : List Pending)
    (tokens : List Text) :
    ∃ xs : List Value, readAllFrom v stack tokens =
      xs.map .ok ++ (finalError? (pendingAfter v stack tokens)).toList.map .error := by
  induction tokens generalizing stack with
  | nil =>
    refine ⟨[], ?_⟩
    cases stack <;> rfl
  | cons tok rest ih =>
    rw [pendingAfter, readAllFrom]
    cases step : readToken v stack tok with
    | shift stack' => exact ih stack'
    | emit x =>
      obtain ⟨xs, read⟩ := ih []
      exact ⟨x :: xs, congrArg (Except.ok x :: ·) read⟩
    | fail e =>
      have none : (readToken v stack tok).stack? = none := by rw [step]; rfl
      obtain ⟨rfl, outside⟩ := close_of_failed_step none
      rw [readToken_close_outside distinct outside] at step
      cases step
      exact ⟨[], rfl⟩

/-! ## The counter and the stack -/

theorem balanceFrom_open (depth : Nat) (last : Option Text) (rest : List Text) :
    balanceFrom v depth last (v.listOpen :: rest) =
      balanceFrom v (depth + 1) (some v.listOpen) rest := by
  rw [balanceFrom.eq_def]
  exact if_pos rfl

theorem balanceFrom_close (distinct : v.DelimitersDiffer) (depth : Nat) (last : Option Text)
    (rest : List Text) :
    balanceFrom v (depth + 1) last (v.listClose :: rest) =
      balanceFrom v depth (some v.listClose) rest := by
  simp [balanceFrom, distinct.open_ne_close.symm]

theorem balanceFrom_close_outside (distinct : v.DelimitersDiffer) (last : Option Text)
    (rest : List Text) : balanceFrom v 0 last (v.listClose :: rest) = ⟨-1, false⟩ := by
  simp [balanceFrom, distinct.open_ne_close.symm]

theorem balanceFrom_of_ne (depth : Nat) (last : Option Text) {tok : Text} (rest : List Text)
    (not_open : tok ≠ v.listOpen) (not_close : tok ≠ v.listClose) :
    balanceFrom v depth last (tok :: rest) = balanceFrom v depth (some tok) rest := by
  rw [balanceFrom.eq_def]
  simp [not_open, not_close]

/-- One token that the reader takes: the counter counts the lists of the stack, and a quote is
on top exactly if the token is the quote mark. -/
theorem balanceFrom_step (distinct : v.DelimitersDiffer) {stack left : List Pending} {tok : Text}
    (step : (readToken v stack tok).stack? = some left) (last : Option Text) (rest : List Text) :
    balanceFrom v (openLists stack) last (tok :: rest) =
        balanceFrom v (openLists left) (some tok) rest ∧
      awaitsForm left = (some tok == some v.quoteMark) := by
  by_cases closes : tok = v.listClose
  · subst closes
    have token : (some v.listClose == some v.quoteMark) = false := by
      simp [distinct.close_ne_quote]
    rw [token]
    match stack with
    | [] =>
      rw [readToken_close_outside distinct (.inl rfl)] at step
      cases step
    | .quote :: outer =>
      rw [readToken_close_outside distinct (.inr rfl)] at step
      cases step
    | .list items :: outer =>
      obtain ⟨left', delivered, lists, form⟩ := stack?_deliver (.list items.reverse) outer
      rw [readToken_close, delivered] at step
      cases step
      exact ⟨by rw [openLists, balanceFrom_close distinct, lists], form⟩
  rw [readToken_of_ne_close stack closes] at step
  by_cases opens : tok = v.listOpen
  · subst opens
    rw [startForm_open] at step
    cases step
    exact ⟨balanceFrom_open _ _ _, by simp [awaitsForm, distinct.open_ne_quote]⟩
  rw [balanceFrom_of_ne _ _ _ opens closes]
  by_cases quotes : tok = v.quoteMark
  · subst quotes
    rw [startForm_quote distinct] at step
    cases step
    exact ⟨rfl, by simp [awaitsForm]⟩
  · obtain ⟨left', delivered, lists, form⟩ := stack?_deliver (readAtom v tok) stack
    rw [startForm_atom stack opens closes quotes, delivered] at step
    cases step
    exact ⟨by rw [lists], by simp [form, quotes]⟩

/-- **The counter follows the reader.**  As long as the reader does not fail, the counter is
the number of open lists, and the last token is a quote mark if and only if a quote is on top
of the stack. -/
theorem balanceFrom_of_pendingAfter (distinct : v.DelimitersDiffer) {stack left : List Pending}
    {tokens : List Text} {last : Option Text}
    (top : awaitsForm stack = (last == some v.quoteMark))
    (h : pendingAfter v stack tokens = some left) :
    balanceFrom v (openLists stack) last tokens = ⟨openLists left, awaitsForm left⟩ := by
  induction tokens generalizing stack last with
  | nil =>
    cases h
    rw [balanceFrom, top]
  | cons tok rest ih =>
    obtain ⟨stack', step, onward⟩ := Option.bind_eq_some_iff.1 h
    obtain ⟨counted, top'⟩ := balanceFrom_step distinct step last rest
    rw [counted, ih top' onward]

/-- Where no closing token stands right behind a quote mark, the counter fails with the
reader. -/
theorem balanceFrom_of_failed (distinct : v.DelimitersDiffer) {stack : List Pending}
    {tokens : List Text} {last : Option Text}
    (top : awaitsForm stack = (last == some v.quoteMark))
    (apart : ¬ [v.quoteMark, v.listClose] <:+: last.toList ++ tokens)
    (h : pendingAfter v stack tokens = none) :
    balanceFrom v (openLists stack) last tokens = ⟨-1, false⟩ := by
  induction tokens generalizing stack last with
  | nil => cases h
  | cons tok rest ih =>
    cases step : (readToken v stack tok).stack? with
    | some stack' =>
      obtain ⟨counted, top'⟩ := balanceFrom_step distinct step last rest
      rw [pendingAfter, step] at h
      rw [counted]
      refine ih top' ?_ h
      intro inside
      exact apart (inside.trans (List.suffix_append _ _).isInfix)
    | none =>
      obtain ⟨rfl, rfl | waiting⟩ := close_of_failed_step step
      · exact balanceFrom_close_outside distinct last rest
      · -- a quote is on top, so the last token was the quote mark
        have quoted : last = some v.quoteMark := by simpa [waiting] using top.symm
        subst quoted
        exact absurd (List.prefix_append [v.quoteMark, v.listClose] rest).isInfix apart

/-! ## Finishing what is open -/

/-- Closing every list finishes a stack with no quote on top. -/
theorem pendingAfter_closes {stack : List Pending} (form : awaitsForm stack = false) :
    pendingAfter v stack (List.replicate (openLists stack) v.listClose) = some [] := by
  generalize count : openLists stack = depth
  induction depth generalizing stack with
  | zero => rw [eq_nil_of_settled count form, List.replicate_zero, pendingAfter]
  | succ depth ih =>
    match stack with
    | [] => cases count
    | .quote :: _ => cases form
    | .list items :: outer =>
      obtain ⟨left, step, lists, form'⟩ := stack?_deliver (.list items.reverse) outer
      have fewer : openLists left = depth := lists.trans (Nat.succ.inj count)
      rw [List.replicate_succ, pendingAfter, readToken_close, step]
      exact ih form' fewer

/-- Whatever is pending can be finished: an empty list fills the quotes on top, and then the
lists are closed. -/
theorem exists_completion (distinct : v.DelimitersDiffer) (stack : List Pending) :
    ∃ more, pendingAfter v stack more = some [] := by
  cases form : awaitsForm stack with
  | false => exact ⟨_, pendingAfter_closes form⟩
  | true =>
    obtain ⟨left, step, lists, form'⟩ := stack?_deliver (.list []) stack
    refine ⟨[v.listOpen, v.listClose] ++ List.replicate (openLists left) v.listClose, ?_⟩
    have filled : pendingAfter v stack [v.listOpen, v.listClose] = some left := by
      rw [pendingAfter, readToken_of_ne_close stack distinct.open_ne_close, startForm_open]
      show pendingAfter v (.list [] :: stack) [v.listClose] = some left
      rw [pendingAfter, readToken_close, List.reverse_nil, step]
      rfl
    rw [pendingAfter_append, filled]
    exact pendingAfter_closes form'

/-! ## The test and the reader -/

/-- The reader takes all of the tokens as forms. -/
def Parses (v : Vocabulary) (tokens : List Text) : Prop :=
  ∃ xs : List Value, readAll v tokens = xs.map .ok

/-- Forms alone never end in an error. -/
theorem map_ok_ne_append_error (xs ys : List Value) (e : ReadError) :
    xs.map Except.ok ≠ ys.map Except.ok ++ [.error e] := by
  intro same
  have member : (.error e : Except ReadError Value) ∈ xs.map Except.ok := by
    rw [same]
    exact List.mem_append_right _ (List.mem_singleton_self _)
  obtain ⟨x, _, impossible⟩ := List.mem_map.1 member
  cases impossible

/-- Reading ends in an error, behind forms, exactly as the stack tells. -/
theorem readAll_eq_error_iff (distinct : v.DelimitersDiffer) {tokens : List Text}
    {e : ReadError} :
    (∃ xs : List Value, readAll v tokens = xs.map .ok ++ [.error e]) ↔
      finalError? (pendingAfter v [] tokens) = some e := by
  obtain ⟨xs, read⟩ := readAllFrom_eq_forms distinct [] tokens
  cases error : finalError? (pendingAfter v [] tokens) with
  | none =>
    rw [error, Option.toList_none, List.map_nil, List.append_nil] at read
    constructor
    · rintro ⟨ys, other⟩
      exact absurd (read.symm.trans other) (map_ok_ne_append_error xs ys e)
    · simp
  | some e' =>
    rw [error, Option.toList_some, List.map_singleton] at read
    constructor
    · rintro ⟨ys, other⟩
      have last := congrArg List.getLast? (read.symm.trans other)
      simpa using last
    · rintro ⟨⟩
      exact ⟨xs, read⟩

theorem parses_iff (distinct : v.DelimitersDiffer) {tokens : List Text} :
    Parses v tokens ↔ pendingAfter v [] tokens = some [] := by
  obtain ⟨xs, read⟩ := readAllFrom_eq_forms distinct [] tokens
  rw [← finalError?_eq_none_iff]
  cases error : finalError? (pendingAfter v [] tokens) with
  | none =>
    rw [error, Option.toList_none, List.map_nil, List.append_nil] at read
    exact iff_of_true ⟨xs, read⟩ rfl
  | some e =>
    rw [error, Option.toList_some, List.map_singleton] at read
    refine iff_of_false ?_ (Option.some_ne_none e)
    rintro ⟨ys, forms⟩
    exact map_ok_ne_append_error ys xs e (forms.symm.trans read)

/-- A stack that is not empty makes the test ask for more. -/
theorem needsMore_iff {tokens : List Text} {left : List Pending} (distinct : v.DelimitersDiffer)
    (h : pendingAfter v [] tokens = some left) : needsMore v tokens = true ↔ left ≠ [] := by
  have counted : balance v tokens = ⟨openLists left, awaitsForm left⟩ :=
    balanceFrom_of_pendingAfter distinct rfl h
  rw [needsMore, counted]
  match left with
  | [] => decide
  | .list _ :: _ => simp [openLists]
  | .quote :: _ => simp [awaitsForm]

/-- **The continuation test agrees with the reader.**  For delimiters that differ, and for
every token sequence:

* if all of it is read as forms, no list is open, no quote mark is last, and no more is needed;
* if reading ends in an error at the end of the tokens, more is needed;
* if the depth is negative, reading ends in a closing token that closes nothing.

If moreover no closing token stands right behind a quote mark, these are exact:

* more is needed if and only if reading fails, but succeeds with some tokens added;
* the depth is negative if and only if reading fails, whatever tokens are added. -/
theorem continuation_test_agrees_with_reader (v : Vocabulary) (distinct : v.DelimitersDiffer)
    (tokens : List Text) :
    (Parses v tokens → balance v tokens = ⟨0, false⟩ ∧ needsMore v tokens = false) ∧
    (∀ e ∈ [ReadError.endOfInput, .missingClose, .missingForm],
      (∃ xs : List Value, readAll v tokens = xs.map .ok ++ [.error e]) →
      needsMore v tokens = true) ∧
    ((balance v tokens).depth < 0 →
      ∃ xs : List Value, readAll v tokens = xs.map .ok ++ [.error .unexpectedClose]) ∧
    (¬ [v.quoteMark, v.listClose] <:+: tokens →
      (needsMore v tokens = true ↔
        ¬ Parses v tokens ∧ ∃ more, Parses v (tokens ++ more)) ∧
      ((balance v tokens).depth < 0 ↔
        ¬ Parses v tokens ∧ ∀ more, ¬ Parses v (tokens ++ more))) := by
  simp only [parses_iff distinct, pendingAfter_append, readAll_eq_error_iff distinct]
  cases left : pendingAfter v [] tokens with
  | none =>
    -- the reader fails on the way, and adding tokens does not help
    refine ⟨by simp, by simp [finalError?], fun _ => rfl, ?_⟩
    intro apart
    have counted : balance v tokens = ⟨-1, false⟩ :=
      @balanceFrom_of_failed v distinct [] tokens none rfl apart left
    simp [needsMore, counted]
  | some stack =>
    have counted : balance v tokens = ⟨openLists stack, awaitsForm stack⟩ :=
      balanceFrom_of_pendingAfter distinct rfl left
    have positive : ¬ (balance v tokens).depth < 0 := by simp [counted]
    obtain ⟨more, completed⟩ := exists_completion distinct stack
    rw [needsMore_iff distinct left]
    refine ⟨?_, ?_, fun negative => absurd negative positive, fun _ => ⟨?_, ?_⟩⟩
    · intro ended
      cases ended
      refine ⟨counted, ?_⟩
      rw [← Bool.not_eq_true, needsMore_iff distinct left]
      simp
    · rintro e _ error rfl
      cases error
    · simp only [Option.some.injEq, Option.bind_some]
      exact ⟨fun pending => ⟨pending, more, completed⟩, And.left⟩
    · simp only [Option.bind_some]
      exact ⟨fun negative => absurd negative positive, fun never => absurd completed (never.2 more)⟩

/-- In words: a list that is open and ends in a quote mark needs more, one closing token too
many cannot be made good, and behind a quote mark the counter does not notice it. -/
theorem words_continued :
    let unfinished : List Text := ["(", "a", "'"]
    let overfull : List Text := ["a", ")"]
    Vocabulary.words.DelimitersDiffer ∧ (∃ more, Parses .words (unfinished ++ more)) ∧
      (∀ more, ¬ Parses .words (overfull ++ more)) ∧
      balance .words ["(", "'", ")"] = ⟨0, false⟩ := by
  intro unfinished overfull
  have distinct : Vocabulary.words.DelimitersDiffer := ⟨by decide, by decide, by decide⟩
  have finishable := (continuation_test_agrees_with_reader .words distinct unfinished).2.2.2
  have hopeless := (continuation_test_agrees_with_reader .words distinct overfull).2.2.2
  refine ⟨distinct, ?_, ?_, by decide⟩
  · exact ((finishable (by decide)).1.1 (by decide)).2
  · exact ((hopeless (by decide)).2.1 (by decide)).2

end Argot
