import Argot.Proofs.Caching
import Argot.Proofs.Lexing
import Argot.Proofs.ValidVocabulary

set_option autoImplicit false

/-!
# Texts one after another

Running two texts in one go, with a line feed between them, is running them one after the
other.  Three steps go through a concatenation.

* Cutting into tokens: reading characters starts afresh at every byte that continues none
  (`runes_append_cons`), a line feed belongs to no word, and no valid delimiter holds one, so
  none reaches across it (`tokenize_append_newline`).
* Reading forms: forms at the front of the tokens are the first results.
* Evaluating: what a form does is done before the next one is looked at, whether it fails or
  not (`evalAll_append`).
-/

namespace Argot

/-! ## Characters and words -/

namespace Text

/-- What does not hold an item stands in front of it if anywhere. -/
theorem prefix_append_cons_iff {d a b : Text} {e : UInt8} (absent : e ∉ d) :
    d <+: a ++ e :: b ↔ d <+: a := by
  constructor
  · intro start
    rcases List.prefix_or_prefix_of_prefix start (List.prefix_append a (e :: b)) with here | beyond
    · exact here
    · obtain ⟨more, rfl⟩ := beyond
      rw [List.prefix_append_right_inj] at start
      cases more with
      | nil => simp
      | cons f more =>
        obtain ⟨rfl, -⟩ := List.cons_prefix_cons.1 start
        exact absurd (by simp) absent
  · intro start
    exact start.trans (List.prefix_append a (e :: b))

/-- The byte of a line feed. -/
def lineFeed : UInt8 := 0x0A

/-- The leading character of a text is one whose bytes stand there. -/
theorem leading?_eq_some_iff {b : UInt8} {t : Text} {c : Char} {width : Nat} :
    leading? b t = some (c, width) ↔
      ∃ tail, tail <+: t ∧ Encodes b tail c ∧ width = tail.length + 1 := by
  constructor
  · intro found
    obtain ⟨bytes, positive⟩ := encode_of_leading? found
    obtain ⟨lead, tail, encodes⟩ := exists_encodes c
    obtain ⟨w, rfl⟩ : ∃ w, width = w + 1 := ⟨width - 1, by omega⟩
    rw [encodes.bytes, List.take_succ_cons] at bytes
    obtain ⟨rfl, here⟩ := List.cons.inj bytes
    have split : tail ++ t.drop w = t := by rw [here, List.take_append_drop]
    have again := encodes.leading (t.drop w)
    rw [split, found] at again
    exact ⟨tail, ⟨t.drop w, split⟩, encodes, (Prod.mk.inj (Option.some.inj again)).2⟩
  · rintro ⟨tail, ⟨rest, rfl⟩, encodes, rfl⟩
    exact encodes.leading rest

/-- Whether a character stands at the front is decided before the next byte that continues
none. -/
theorem leading?_append_cons {b : UInt8} (starts : ¬ IsContinuation b) (lead : UInt8)
    (t rest : Text) : leading? lead (t ++ b :: rest) = leading? lead t := by
  apply Option.ext
  rintro ⟨c, width⟩
  rw [leading?_eq_some_iff, leading?_eq_some_iff]
  refine exists_congr fun tail => and_congr_left fun encodes => ?_
  exact prefix_append_cons_iff fun member => starts (encodes.1.continues b member)

theorem runesFrom_append_cons {b : UInt8} (starts : ¬ IsContinuation b) (rest : Text) {skip : Nat}
    {t : Text} (inside : skip ≤ t.length) :
    runesFrom skip (t ++ b :: rest) = runesFrom skip t ++ runes (b :: rest) := by
  induction t generalizing skip with
  | nil =>
    obtain rfl := Nat.le_zero.1 inside
    rfl
  | cons lead t ih =>
    cases skip with
    | succ skip => exact ih (Nat.le_of_succ_le_succ inside)
    | zero =>
      rw [List.cons_append, runesFrom, runesFrom, leading?_append_cons starts]
      cases found : leading? lead t with
      | none => exact congrArg (Rune.stray lead :: ·) (ih (Nat.zero_le _))
      | some out =>
        obtain ⟨c, width⟩ := out
        obtain ⟨tail, start, -, rfl⟩ := leading?_eq_some_iff.1 found
        exact congrArg (Rune.char c :: ·) (ih start.length_le)

/-- Reading characters starts afresh at a byte that continues none. -/
theorem runes_append_cons {b : UInt8} (starts : ¬ IsContinuation b) (t rest : Text) :
    runes (t ++ b :: rest) = runes t ++ runes (b :: rest) :=
  runesFrom_append_cons starts rest (Nat.zero_le _)

/-- A character is read back, whatever bytes stand around it. -/
theorem runes_append_char (t : Text) (c : Char) (rest : Text) :
    runes (t ++ (String.utf8EncodeChar c ++ rest)) = runes t ++ .char c :: runes rest := by
  obtain ⟨lead, tail, encodes⟩ := exists_encodes c
  have whole := runes_char_append c rest
  rw [encodes.bytes, List.cons_append] at whole ⊢
  rw [runes_append_cons encodes.starts, whole]

theorem runes_append_lineFeed (t rest : Text) :
    runes (t ++ lineFeed :: rest) = runes t ++ .char '\n' :: runes rest :=
  runes_append_char t '\n' rest

/-- A text without whitespace holds no line feed. -/
theorem lineFeed_not_mem {t : Text} (solid : t.hasSpace = false) : lineFeed ∉ t := by
  intro member
  obtain ⟨front, rest, rfl⟩ := List.append_of_mem member
  have blank : (Rune.char '\n').isSpace = true := rfl
  rw [hasSpace, runes_append_lineFeed, List.any_append, List.any_cons, blank] at solid
  simp at solid

/-- The words of a sequence of characters. -/
def wordsOf (rs : List Rune) : List Text :=
  if (openField rs).1.isEmpty then (openField rs).2 else (openField rs).1 :: (openField rs).2

theorem fields_eq_wordsOf (t : Text) : t.fields = wordsOf t.runes := rfl

/-- Whitespace ends the word that is open in front of it. -/
theorem openField_append_blank {r : Rune} (blank : r.isSpace = true) (rs ss : List Rune) :
    openField (rs ++ r :: ss) = ((openField rs).1, (openField rs).2 ++ wordsOf ss) := by
  induction rs with
  | nil =>
    rw [List.nil_append, openField]
    simp [blank, wordsOf, openField]
  | cons s rs ih =>
    rw [List.cons_append, openField, ih, openField]
    by_cases space : s.isSpace = true
    · simp only [if_pos space]
      split <;> rfl
    · simp only [if_neg space]

/-- Whitespace belongs to no word. -/
theorem fields_append_char {c : Char} (blank : (Rune.char c).isSpace = true) (a b : Text) :
    fields (a ++ (String.utf8EncodeChar c ++ b)) = a.fields ++ b.fields := by
  have cut := openField_append_blank blank a.runes b.runes
  rw [fields_eq_wordsOf, fields_eq_wordsOf, fields_eq_wordsOf, runes_append_char]
  generalize wordsOf b.runes = words at cut ⊢
  rw [wordsOf, cut, wordsOf]
  split <;> rfl

theorem fields_append_newline (a b : Text) : fields (a ++ newline ++ b) = a.fields ++ b.fields := by
  rw [List.append_assoc]
  exact fields_append_char (c := '\n') rfl a b

end Text

/-! ## Tokens -/

/-- No delimiter is empty or holds a line feed. -/
structure WithinLines (delimiters : List Text) : Prop where
  nonempty : ∀ d ∈ delimiters, d ≠ []
  lines : ∀ d ∈ delimiters, Text.lineFeed ∉ d

theorem Vocabulary.IsValid.withinLines {v : Vocabulary} (valid : v.IsValid) :
    WithinLines v.delimiters where
  nonempty _ member := valid.nonempty_delimiter member
  lines _ member := Text.lineFeed_not_mem (valid.solid_delimiter member)

section Delimiters

variable {delimiters : List Text}

theorem isSome_after?_iff {d t : Text} : (Text.after? d t).isSome = true ↔ d <+: t := by
  simp only [Option.isSome_iff_exists, Text.after?_eq_some_iff]
  exact exists_congr fun rest => eq_comm

/-- What stands at the front of a text stands there before its first line feed. -/
theorem leadingDelimiter?_append (within : WithinLines delimiters) (a b : Text) :
    leadingDelimiter? delimiters (a ++ Text.lineFeed :: b) = leadingDelimiter? delimiters a := by
  have same : ∀ d ∈ delimiters,
      (Text.after? d (a ++ Text.lineFeed :: b)).isSome = (Text.after? d a).isSome := by
    intro d member
    rw [Bool.eq_iff_iff, isSome_after?_iff, isSome_after?_iff,
      Text.prefix_append_cons_iff (within.lines d member)]
  rw [leadingDelimiter?, leadingDelimiter?, ← List.head?_filter, ← List.head?_filter]
  exact congrArg List.head? (List.filter_congr fun d member => by rw [same d member])

/-- The delimiter at the front of a text is a part of it. -/
theorem length_le_of_leadingDelimiter? {d t : Text}
    (found : leadingDelimiter? delimiters t = some d) : d.length ≤ t.length := by
  have stands := List.find?_some found
  rw [Bool.and_eq_true, isSome_after?_iff] at stands
  exact stands.2.length_le

theorem any_isEmpty_of_withinLines (within : WithinLines delimiters) :
    delimiters.any List.isEmpty = false := by
  rw [List.any_eq_false]
  intro d member empty
  exact within.nonempty d member (List.isEmpty_iff.1 empty)

/-- A byte at which no delimiter stands is copied. -/
theorem setOffFrom_cons_of_none (within : WithinLines delimiters) {b : UInt8} {t : Text}
    (none : leadingDelimiter? delimiters (b :: t) = none) :
    setOffFrom delimiters 0 (b :: t) = b :: setOffFrom delimiters 0 t := by
  rw [setOffFrom, none]
  simp [any_isEmpty_of_withinLines within]

/-- Delimiters are set off on both sides of a line feed as if the other side were not
there. -/
theorem setOffFrom_append_lineFeed (within : WithinLines delimiters) (b : Text) {skip : Nat}
    {a : Text} (inside : skip ≤ a.length) :
    setOffFrom delimiters skip (a ++ Text.lineFeed :: b) =
      setOffFrom delimiters skip a ++ Text.lineFeed :: setOff delimiters b := by
  induction a generalizing skip with
  | nil =>
    obtain rfl := Nat.le_zero.1 inside
    have none : leadingDelimiter? delimiters (Text.lineFeed :: b) = none := by
      rw [← List.nil_append (Text.lineFeed :: b), leadingDelimiter?_append within]
      cases found : leadingDelimiter? delimiters [] with
      | none => rfl
      | some d =>
        have empty := List.length_eq_zero_iff.1 (Nat.le_zero.1 (length_le_of_leadingDelimiter? found))
        exact absurd empty (within.nonempty d (List.mem_of_find?_eq_some found))
    rw [List.nil_append, setOffFrom_cons_of_none within none]
    rfl
  | cons e a ih =>
    cases skip with
    | succ skip => exact ih (Nat.le_of_succ_le_succ inside)
    | zero =>
      have same := leadingDelimiter?_append within (e :: a) b
      cases found : leadingDelimiter? delimiters (e :: a) with
      | none =>
        rw [found, List.cons_append] at same
        rw [List.cons_append, setOffFrom_cons_of_none within same,
          setOffFrom_cons_of_none within found, ih (Nat.zero_le _), List.cons_append]
      | some d =>
        rw [found, List.cons_append] at same
        have short : d.length - 1 ≤ a.length := by
          have fits := length_le_of_leadingDelimiter? found
          rw [List.length_cons] at fits
          omega
        rw [List.cons_append, setOffFrom, same, setOffFrom, found]
        simp only [ih short, List.append_assoc]

end Delimiters

variable {v : Vocabulary}

/-- **Texts are cut line by line.** -/
theorem tokenize_append_newline (valid : v.IsValid) (a b : Text) :
    tokenize v (a ++ Text.newline ++ b) = tokenize v a ++ tokenize v b := by
  have apart : setOff v.delimiters (a ++ Text.newline ++ b) =
      setOff v.delimiters a ++ Text.newline ++ setOff v.delimiters b := by
    rw [List.append_assoc, List.append_assoc]
    exact setOffFrom_append_lineFeed valid.withinLines b (Nat.zero_le _)
  rw [tokenize, apart, Text.fields_append_newline]
  rfl

/-! ## Forms -/

theorem allForms_eq_ok_iff {entries : List (Except ReadError Value)} {xs : List Value} :
    allForms entries = .ok xs ↔ entries = xs.map .ok := by
  induction entries generalizing xs with
  | nil => cases xs <;> simp [allForms]
  | cons entry rest ih =>
    cases entry with
    | error e => cases xs <;> simp [allForms]
    | ok x =>
      have others : allForms (.ok x :: rest) = (allForms rest).map (x :: ·) := by
        rw [allForms]
        cases allForms rest <;> rfl
      rw [others]
      cases xs with
      | nil => cases allForms rest <;> simp [Except.map]
      | cons y ys =>
        rw [List.map_cons, List.cons.injEq, ← ih]
        cases allForms rest <;> simp [Except.map]

/-- A text is read as forms if and only if it has tokens and all of them are read. -/
theorem readText_eq_ok_iff {text : Text} {xs : List Value} :
    readText v text = .ok xs ↔
      tokenize v text ≠ [] ∧ readAll v (tokenize v text) = xs.map .ok := by
  rw [← allForms_eq_ok_iff]
  unfold readText
  by_cases empty : tokenize v text = []
  · simp [empty]
  · simp only [List.isEmpty_iff, if_neg empty]
    cases allForms (readAll v (tokenize v text)) <;> simp [empty]

/-- Texts that can be read can be read in one go, as the forms of both. -/
theorem readText_append_newline (valid : v.IsValid) {a b : Text} {xs ys : List Value}
    (first : readText v a = .ok xs) (second : readText v b = .ok ys) :
    readText v (a ++ Text.newline ++ b) = .ok (xs ++ ys) := by
  rw [readText_eq_ok_iff] at first second ⊢
  have spelled := (readAll_eq_map_ok_iff valid.delimitersDiffer).1 first.2
  rw [tokenize_append_newline valid]
  refine ⟨by simp [first.1], ?_⟩
  rw [readAll_of_spellsAll valid.delimitersDiffer spelled, second.2, List.map_append]

/-! ## Evaluation -/

namespace Machine

/-- Forms are evaluated one after another, in the machine that the ones before left. -/
theorem evalAll_append (fuel scope : Nat) (xs ys : List Value) (m : Machine) :
    evalAll fuel scope (xs ++ ys) m =
      (evalAll fuel scope xs m).bind fun out =>
        (evalAll fuel scope ys out.2).map fun outs => (out.1 ++ outs.1, outs.2) := by
  induction xs generalizing m with
  | nil =>
    show evalAll fuel scope ys m = (evalAll fuel scope ys m).map fun outs => ([] ++ outs.1, outs.2)
    cases evalAll fuel scope ys m <;> rfl
  | cons x xs ih =>
    rw [List.cons_append, evalAll_cons, evalAll_cons, Option.bind_assoc]
    apply Option.bind_congr
    intro out _
    rw [ih, Option.map_bind, Option.bind_map]
    apply Option.bind_congr
    intro outs _
    show Option.map _ (Option.map _ (evalAll fuel scope ys outs.2)) = Option.map _ _
    rw [Option.map_map]
    rfl

/-- The states that an interpreter can be in: it was made from settings or by cloning, has done
operations or evaluated something, and other interpreters may have changed what they share. -/
inductive Arises : Machine → Prop where
  | create (settings : Settings) (c : Commons) : Arises (create settings c)
  | cloned {m : Machine} (before : m.Arises) : Arises m.clone.2
  | clone {m : Machine} (before : m.Arises) : Arises ⟨m.clone.1, m.clone.2.commons⟩
  | performed {m m' : Machine} {op : Operation} {answer : Option Answer} (before : m.Arises)
      (ends : perform op m = some (answer, m')) : m'.Arises
  | evaluated {m m' : Machine} {fuel scope : Nat} {x : Value} {outcome : Outcome}
      (before : m.Arises) (ends : eval fuel x scope m = some (outcome, m')) : m'.Arises
  | traced {m : Machine} (before : m.Arises) (on : Bool) : (m.setTracing on).Arises
  | shared {m : Machine} (before : m.Arises) (c : Commons) : Arises { m with commons := c }

/-- What is drawn and what is shared have nothing to do with the cache. -/
theorem Faithful.drawing {m : Machine} (faithful : m.Faithful) (g : Generator) (c : Commons) :
    Faithful ⟨{ m.interpreter with generator := g }, c⟩ :=
  faithful

theorem Arises.faithful {m : Machine} (arises : m.Arises) : m.Faithful := by
  induction arises with
  | create settings c => exact ParseCache.faithful_ofCapacity _ _
  | cloned before ih =>
    rw [clone_snd]
    exact ih.drawing _ _
  | clone before ih =>
    rw [clone_fst]
    exact ParseCache.faithful_ofCapacity _ _
  | performed before ends ih => exact ih.perform ends
  | evaluated before ends ih =>
    rw [eval_apply] at ends
    obtain ⟨out, _, same⟩ := Option.map_eq_some_iff.1 ends
    cases same
    exact ih.drawing _ _
  | traced before on ih => exact ih
  | shared before c ih => exact ih

section Batches

variable {m : Machine} {text : Text} {xs : List Value}

/-- With a faithful cache, a text that can be read has its forms evaluated. -/
theorem run_of_forms (faithful : m.Faithful) (fuel : Nat)
    (read : readText m.interpreter.vocabulary text = .ok xs) :
    ∃ cache : ParseCache, cache.Faithful m.interpreter.vocabulary ∧
      run fuel text m = (evalAll fuel m.interpreter.global xs m).map
        fun out => (.ok out.1, out.2.remembering m.interpreter.hash cache) := by
  obtain ⟨cache, after, ran⟩ := run_eq_runAnew faithful fuel text
  refine ⟨cache, after, ?_⟩
  rw [ran, runAnew_of_forms fuel read, Option.map_map]
  rfl

theorem run_forgetting (faithful : m.Faithful) (fuel : Nat)
    (read : readText m.interpreter.vocabulary text = .ok xs) :
    (run fuel text m).map forgetting = (evalAll fuel m.interpreter.global xs m).map
      fun out => (.ok out.1, out.2.forgetful) := by
  obtain ⟨cache, _, ran⟩ := run_of_forms faithful fuel read
  rw [ran, Option.map_map]
  rfl

end Batches

end Machine

open Machine

/-- **Batching does not matter.**  Take an interpreter with a valid vocabulary in any state
that it can be in, and two texts that have tokens and can be read.

* The two with a line feed between them can be read, as the forms of the first and then those
  of the second.
* Running that text ends if and only if running the first does and running the second after it
  does.  Its results are the results of the first text followed by those of the second, the
  errors of single forms among them, and afterwards the interpreter agrees with the one that
  has run the texts one by one in everything but its cache: in all scopes, the global one among
  them, in the registered functions and in the generator. -/
theorem batching_does_not_matter (m : Machine) (arises : m.Arises)
    (valid : m.interpreter.vocabulary.IsValid) (a b : Text) (xs ys : List Value)
    (first : readText m.interpreter.vocabulary a = .ok xs)
    (second : readText m.interpreter.vocabulary b = .ok ys) (fuel : Nat) :
    readText m.interpreter.vocabulary (a ++ Text.newline ++ b) = .ok (xs ++ ys) ∧
    ∀ (answer : Answer) (k : Machine),
      (run fuel (a ++ Text.newline ++ b) m).map forgetting = some (answer, k) ↔
        ∃ (results results' : List Outcome) (m₁ : Machine),
          run fuel a m = some (.ok results, m₁) ∧
          (run fuel b m₁).map forgetting = some (.ok results', k) ∧
          answer = .ok (results ++ results') := by
  have whole := readText_append_newline valid first second
  refine ⟨whole, ?_⟩
  intro answer k
  obtain ⟨cache, faithful, ran⟩ := run_of_forms arises.faithful fuel first
  rw [run_forgetting arises.faithful fuel whole, evalAll_append, ran]
  cases evaluated : evalAll fuel m.interpreter.global xs m with
  | none => simp
  | some out =>
    obtain ⟨results, m₁⟩ := out
    -- the first text leaves the vocabulary and the global scope of the interpreter alone
    have kept := interpreter_evalAll evaluated
    have vocabulary : m₁.interpreter.vocabulary = m.interpreter.vocabulary := by rw [kept]
    have scope : m₁.interpreter.global = m.interpreter.global := by rw [kept]
    have ran' : (run fuel b (m₁.remembering m.interpreter.hash cache)).map forgetting =
        (evalAll fuel m.interpreter.global ys m₁).map fun out => (.ok out.1, out.2.forgetful) := by
      rw [← vocabulary] at faithful second
      rw [run_forgetting (m := m₁.remembering m.interpreter.hash cache) faithful fuel second,
        ← scope]
      show Option.map _ (evalAll fuel m₁.interpreter.global ys _) = _
      rw [evalAll_remembering, Option.map_map]
      rfl
    simp only [Option.bind_some, Option.map_some, Option.map_map]
    constructor
    · intro ends
      obtain ⟨⟨results', m₂⟩, evaluated', same⟩ := Option.map_eq_some_iff.1 ends
      cases same
      exact ⟨results, results', _, rfl, by rw [ran', evaluated']; rfl, rfl⟩
    · rintro ⟨_, results', _, ⟨⟩, ends, rfl⟩
      rw [ran'] at ends
      obtain ⟨⟨_, m₂⟩, evaluated', same⟩ := Option.map_eq_some_iff.1 ends
      cases same
      rw [evaluated']
      rfl

/-- A text with a definition, a failure and a quote, and a text that uses the definition. -/
theorem words_in_batches :
    let m := Machine.create (.standard .words) ∅
    let a : Text := "(var n true) (car n) 'n"
    let b : Text := "(and n n)"
    ∃ results results' m₁ k, run 10 a m = some (.ok results, m₁) ∧
      (run 10 b m₁).map forgetting = some (.ok results', k) ∧
      (run 10 (a ++ Text.newline ++ b) m).map forgetting = some (.ok (results ++ results'), k) ∧
      (results ++ results').map Except.isOk = [true, false, true, true] := by
  intro m a b
  have readable {text : Text} (h : (readText .words text).isOk = true) :
      ∃ xs, readText .words text = .ok xs := by
    cases read : readText .words text with
    | ok xs => exact ⟨xs, rfl⟩
    | error e =>
      rw [read] at h
      cases h
  obtain ⟨xs, first⟩ := @readable a (by decide +kernel)
  obtain ⟨ys, second⟩ := @readable b (by decide +kernel)
  have batch := batching_does_not_matter m (.create _ _) (show Vocabulary.words.IsValid by decide)
    a b xs ys first second 10
  have shown : (run 10 (a ++ Text.newline ++ b) m).map
      (fun out => out.1.toOption.map (List.map Except.isOk)) =
        some (some [true, false, true, true]) := by
    decide +kernel
  obtain ⟨⟨answer, k⟩, ran, kinds⟩ := Option.map_eq_some_iff.1 shown
  have forgotten : (run 10 (a ++ Text.newline ++ b) m).map forgetting =
      some (answer, k.forgetful) := by
    rw [ran]
    rfl
  obtain ⟨results, results', m₁, ran₁, ran₂, rfl⟩ := (batch.2 _ _).1 forgotten
  exact ⟨results, results', m₁, k.forgetful, ran₁, ran₂, forgotten, Option.some.inj kinds⟩

end Argot
