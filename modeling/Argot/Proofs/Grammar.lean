import Argot.Interpreter.Basic

set_option autoImplicit false

/-!
# The grammar of forms

`Spells v tokens x` is the grammar of the language: which token sequences spell which
form.  It mentions no reader.  The reader works with a stack of open forms, and three
facts tie it to the grammar:

* a sequence that spells a form is read as that form, on top of any stack and in front
  of any rest (`readOneFrom_of_spells`);
* every sequence starts with a form, or with a closing token, or makes the reader fail
  (`form_or_fails`);
* so the reader accepts what the grammar derives and nothing else, and the grammar is
  unambiguous (`readOne_eq_ok_iff`, `Spells.unique`).
-/

namespace Argot

/-! ## Derivations -/

/-- No two delimiters are the same token. -/
structure Vocabulary.DelimitersDiffer (v : Vocabulary) : Prop where
  open_ne_close : v.listOpen ≠ v.listClose
  open_ne_quote : v.listOpen ≠ v.quoteMark
  close_ne_quote : v.listClose ≠ v.quoteMark

mutual

/-- The tokens spell the form. -/
inductive Spells (v : Vocabulary) : List Text → Value → Prop where
  /-- the items between the two list delimiters -/
  | list {inner : List Text} {items : List Value} (spelled : SpellsAll v inner items) :
      Spells v (v.listOpen :: (inner ++ [v.listClose])) (.list items)
  /-- a form behind the quote mark -/
  | quote {tokens : List Text} {x : Value} (spelled : Spells v tokens x) :
      Spells v (v.quoteMark :: tokens) (.quote x)
  /-- any other token, by itself -/
  | atom {tok : Text} (not_open : tok ≠ v.listOpen) (not_close : tok ≠ v.listClose)
      (not_quote : tok ≠ v.quoteMark) : Spells v [tok] (readAtom v tok)

/-- The tokens spell the forms, one after another. -/
inductive SpellsAll (v : Vocabulary) : List Text → List Value → Prop where
  | nil : SpellsAll v [] []
  | cons {first rest : List Text} {x : Value} {xs : List Value} (head : Spells v first x)
      (tail : SpellsAll v rest xs) : SpellsAll v (first ++ rest) (x :: xs)

end

variable {v : Vocabulary}

/-- A form takes at least one token. -/
theorem Spells.ne_nil {tokens : List Text} {x : Value} (h : Spells v tokens x) :
    tokens ≠ [] := by
  cases h <;> simp

/-! ## What the reader does with a form -/

/-- Goes on reading after a step. -/
def resume (v : Vocabulary) (step : ReadStep) (rest : List Text) :
    Except ReadError (Value × List Text) :=
  match step with
  | .shift stack => readOneFrom v stack rest
  | .emit form => .ok (form, rest)
  | .fail e => .error e

theorem readOneFrom_cons (stack : List Pending) (tok : Text) (rest : List Text) :
    readOneFrom v stack (tok :: rest) = resume v (readToken v stack tok) rest := by
  rw [readOneFrom]
  cases readToken v stack tok <;> rfl

/-- A token other than the closing one starts a form, whatever is open. -/
theorem readToken_of_ne_close (stack : List Pending) {tok : Text} (h : tok ≠ v.listClose) :
    readToken v stack tok = startForm v stack tok := by
  unfold readToken
  split
  · rw [if_neg h]
  · rfl

theorem startForm_open (stack : List Pending) :
    startForm v stack v.listOpen = .shift (.list [] :: stack) := by
  simp [startForm]

theorem startForm_quote (distinct : v.DelimitersDiffer) (stack : List Pending) :
    startForm v stack v.quoteMark = .shift (.quote :: stack) := by
  simp [startForm, distinct.open_ne_quote.symm]

theorem startForm_atom (stack : List Pending) {tok : Text} (not_open : tok ≠ v.listOpen)
    (not_close : tok ≠ v.listClose) (not_quote : tok ≠ v.quoteMark) :
    startForm v stack tok = deliver (readAtom v tok) stack := by
  simp [startForm, not_open, not_close, not_quote]

theorem readToken_close (items : List Value) (stack : List Pending) :
    readToken v (.list items :: stack) v.listClose = deliver (.list items.reverse) stack := by
  simp [readToken]

mutual

/-- The tokens of a form, in front of any rest, hand the form to the stack. -/
theorem readOneFrom_of_spells (distinct : v.DelimitersDiffer) {tokens : List Text} {x : Value}
    (h : Spells v tokens x) (stack : List Pending) (rest : List Text) :
    readOneFrom v stack (tokens ++ rest) = resume v (deliver x stack) rest := by
  cases h with
  | @list inner items spelled =>
    have body := readOneFrom_of_spellsAll distinct spelled [] stack (v.listClose :: rest)
    rw [List.append_nil] at body
    rw [List.cons_append, readOneFrom_cons, readToken_of_ne_close stack distinct.open_ne_close,
      startForm_open, List.append_assoc, List.singleton_append]
    show readOneFrom v (.list [] :: stack) (inner ++ v.listClose :: rest) = _
    rw [body, readOneFrom_cons, readToken_close, List.reverse_reverse]
  | @quote tokens x spelled =>
    have body := readOneFrom_of_spells distinct spelled (.quote :: stack) rest
    rw [List.cons_append, readOneFrom_cons,
      readToken_of_ne_close stack distinct.close_ne_quote.symm, startForm_quote distinct]
    exact body
  | @atom tok not_open not_close not_quote =>
    rw [List.singleton_append, readOneFrom_cons, readToken_of_ne_close stack not_close,
      startForm_atom stack not_open not_close not_quote]

/-- The tokens of several forms add them to the list that is open. -/
theorem readOneFrom_of_spellsAll (distinct : v.DelimitersDiffer) {tokens : List Text}
    {xs : List Value} (h : SpellsAll v tokens xs) (items : List Value) (stack : List Pending)
    (rest : List Text) :
    readOneFrom v (.list items :: stack) (tokens ++ rest) =
      readOneFrom v (.list (xs.reverse ++ items) :: stack) rest := by
  cases h with
  | nil => rfl
  | @cons first more x xs head tail =>
    have start := readOneFrom_of_spells distinct head (.list items :: stack) (more ++ rest)
    have body := readOneFrom_of_spellsAll distinct tail (x :: items) stack rest
    rw [List.append_assoc, start]
    show readOneFrom v (.list (x :: items) :: stack) (more ++ rest) = _
    rw [body]
    simp

end

/-! ## Every sequence starts with a form or fails -/

/-- The reader fails on the tokens, with this stack. -/
def Fails (v : Vocabulary) (stack : List Pending) (tokens : List Text) : Prop :=
  ∃ e, readOneFrom v stack tokens = .error e

theorem fails_nil (stack : List Pending) : Fails v stack [] := ⟨endError stack, rfl⟩

/-- Behind a quote mark, and outside all forms, a closing token is an error. -/
theorem fails_close_after_quote (distinct : v.DelimitersDiffer) (stack : List Pending)
    (rest : List Text) : Fails v (.quote :: stack) (v.listClose :: rest) := by
  refine ⟨.unexpectedClose, ?_⟩
  simp [readOneFrom, readToken, startForm, distinct.open_ne_close.symm, distinct.close_ne_quote]

theorem fails_close_outside (distinct : v.DelimitersDiffer) (rest : List Text) :
    Fails v [] (v.listClose :: rest) := by
  refine ⟨.unexpectedClose, ?_⟩
  simp [readOneFrom, readToken, startForm, distinct.open_ne_close.symm, distinct.close_ne_quote]

mutual

/-- A token sequence starts with the closing token or with a form, or else it makes the
reader fail whatever is open. -/
theorem form_or_fails (distinct : v.DelimitersDiffer) (tokens : List Text) :
    (∃ rest, tokens = v.listClose :: rest) ∨
      (∃ start x rest, tokens = start ++ rest ∧ Spells v start x) ∨
      ∀ stack, Fails v stack tokens := by
  match tokens with
  | [] => exact .inr (.inr fails_nil)
  | tok :: rest =>
    by_cases closes : tok = v.listClose
    · exact .inl ⟨rest, by rw [closes]⟩
    by_cases opens : tok = v.listOpen
    · subst opens
      obtain ⟨inner, items, rest', rfl, spelled, ending⟩ := forms_then_close_or_fails distinct rest
      rcases ending with ⟨rest'', rfl⟩ | fails
      · refine .inr (.inl ⟨_, _, rest'', ?_, .list spelled⟩)
        simp
      · -- the list is never closed: its items are read, and then the reader fails
        refine .inr (.inr fun stack => ?_)
        obtain ⟨e, error⟩ := fails items.reverse stack
        have body := readOneFrom_of_spellsAll distinct spelled [] stack rest'
        rw [List.append_nil, error] at body
        refine ⟨e, ?_⟩
        rw [readOneFrom_cons, readToken_of_ne_close stack closes, startForm_open]
        exact body
    by_cases quotes : tok = v.quoteMark
    · subst quotes
      have shift : ∀ stack, readOneFrom v stack (v.quoteMark :: rest) =
          readOneFrom v (.quote :: stack) rest := by
        intro stack
        rw [readOneFrom_cons, readToken_of_ne_close stack closes, startForm_quote distinct]
        rfl
      rcases form_or_fails distinct rest with ⟨rest', rfl⟩ | ⟨start, x, rest', rfl, spelled⟩ | fails
      · refine .inr (.inr fun stack => ?_)
        rw [Fails, shift]
        exact fails_close_after_quote distinct stack rest'
      · exact .inr (.inl ⟨_, _, rest', rfl, .quote spelled⟩)
      · refine .inr (.inr fun stack => ?_)
        rw [Fails, shift]
        exact fails (.quote :: stack)
    · exact .inr (.inl ⟨_, _, rest, rfl, .atom opens closes quotes⟩)
termination_by (tokens.length, 0)

/-- A token sequence starts with as many forms as there are before the closing token, or
else before the place where the reader fails. -/
theorem forms_then_close_or_fails (distinct : v.DelimitersDiffer) (tokens : List Text) :
    ∃ start xs rest, tokens = start ++ rest ∧ SpellsAll v start xs ∧
      ((∃ rest', rest = v.listClose :: rest') ∨
        ∀ items stack, Fails v (.list items :: stack) rest) := by
  rcases form_or_fails distinct tokens with closes | ⟨start, x, rest, split, spelled⟩ | fails
  · exact ⟨[], [], tokens, rfl, .nil, .inl closes⟩
  · have positive : 0 < start.length := List.length_pos_iff.2 spelled.ne_nil
    have shorter : rest.length < tokens.length := by
      rw [split, List.length_append]
      omega
    obtain ⟨more, xs, rest', rfl, spelledAll, ending⟩ := forms_then_close_or_fails distinct rest
    exact ⟨start ++ more, x :: xs, rest', by rw [split, List.append_assoc],
      .cons spelled spelledAll, ending⟩
  · exact ⟨[], [], tokens, rfl, .nil, .inr fun items stack => fails (.list items :: stack)⟩
termination_by (tokens.length, 1)

end

/-! ## Reading one form -/

/-- What spells a form is read as that form, and the rest is handed back untouched. -/
theorem readOne_of_spells (distinct : v.DelimitersDiffer) {tokens : List Text} {x : Value}
    (h : Spells v tokens x) (rest : List Text) : readOne v (tokens ++ rest) = .ok (x, rest) := by
  rw [readOne, readOneFrom_of_spells distinct h]
  rfl

/-- The reader delivers a form if and only if a part at the front of the tokens spells it. -/
theorem readOne_eq_ok_iff (distinct : v.DelimitersDiffer) {tokens rest : List Text} {x : Value} :
    readOne v tokens = .ok (x, rest) ↔ ∃ start, tokens = start ++ rest ∧ Spells v start x := by
  constructor
  · intro read
    rcases form_or_fails distinct tokens with ⟨rest', rfl⟩ | ⟨start, y, rest', rfl, spelled⟩ | fails
    · obtain ⟨e, error⟩ := fails_close_outside distinct rest'
      rw [readOne, error] at read
      cases read
    · rw [readOne_of_spells distinct spelled] at read
      cases read
      exact ⟨start, rfl, spelled⟩
    · obtain ⟨e, error⟩ := fails []
      rw [readOne, error] at read
      cases read
  · rintro ⟨start, rfl, spelled⟩
    exact readOne_of_spells distinct spelled rest

/-- At most one part at the front of a token sequence spells a form, and only one form. -/
theorem Spells.unique (distinct : v.DelimitersDiffer) {start start' rest rest' : List Text}
    {x x' : Value} (h : Spells v start x) (h' : Spells v start' x')
    (same : start ++ rest = start' ++ rest') : start = start' ∧ x = x' ∧ rest = rest' := by
  have read := readOne_of_spells distinct h rest
  have read' := readOne_of_spells distinct h' rest'
  rw [same, read'] at read
  obtain ⟨rfl, rfl⟩ := Prod.mk.inj (Except.ok.inj read)
  exact ⟨List.append_cancel_right same, rfl, rfl⟩

/-- Reading a form takes at least one token. -/
theorem length_lt_of_readOne (distinct : v.DelimitersDiffer) {tokens rest : List Text} {x : Value}
    (read : readOne v tokens = .ok (x, rest)) : rest.length < tokens.length := by
  obtain ⟨start, rfl, spelled⟩ := (readOne_eq_ok_iff distinct).1 read
  have positive : 0 < start.length := List.length_pos_iff.2 spelled.ne_nil
  rw [List.length_append]
  omega

/-! ## Reading all forms -/

theorem readAll_nil : readAll v [] = [] := rfl

/-- Forms at the front of the tokens are the first results. -/
theorem readAll_of_spellsAll (distinct : v.DelimitersDiffer) {tokens : List Text}
    {xs : List Value} (h : SpellsAll v tokens xs) (rest : List Text) :
    readAll v (tokens ++ rest) = xs.map .ok ++ readAll v rest := by
  induction xs generalizing tokens with
  | nil =>
    cases h
    rfl
  | cons x xs ih =>
    cases h with
    | @cons first more _ _ head tail =>
      have some : first ++ (more ++ rest) ≠ [] := by simp [head.ne_nil]
      rw [List.append_assoc, readAll_eq v some, readOne_of_spells distinct head]
      simp only [List.map_cons, List.cons_append]
      rw [ih tail]

theorem readAll_of_error {tokens : List Text} {e : ReadError} (some : tokens ≠ [])
    (read : readOne v tokens = .error e) : readAll v tokens = [.error e] := by
  rw [readAll_eq v some, read]

/-- Reading goes through forms and then comes to the end or to an error. -/
theorem forms_then_end_or_error (distinct : v.DelimitersDiffer) (tokens : List Text) :
    ∃ start xs rest, tokens = start ++ rest ∧ SpellsAll v start xs ∧
      (rest = [] ∨ rest ≠ [] ∧ ∃ e, readOne v rest = .error e) := by
  by_cases empty : tokens = []
  · exact ⟨[], [], [], by rw [empty]; rfl, .nil, .inl rfl⟩
  cases read : readOne v tokens with
  | error e => exact ⟨[], [], tokens, rfl, .nil, .inr ⟨empty, e, read⟩⟩
  | ok result =>
    obtain ⟨x, rest⟩ := result
    have shorter := length_lt_of_readOne distinct read
    obtain ⟨first, split, head⟩ := (readOne_eq_ok_iff distinct).1 read
    obtain ⟨more, xs, rest', rfl, tail, ending⟩ := forms_then_end_or_error distinct rest
    exact ⟨first ++ more, x :: xs, rest', by rw [split, List.append_assoc], .cons head tail, ending⟩
termination_by tokens.length

/-- Where the reader stops with an error, no sequence of forms goes further, and every
sequence of forms at the front is a part of the one that was read. -/
theorem SpellsAll.is_longest (distinct : v.DelimitersDiffer) {start rest start' rest' : List Text}
    {xs ys : List Value} {e : ReadError} (h : SpellsAll v start xs)
    (stops : readOne v rest = .error e) (h' : SpellsAll v start' ys)
    (same : start ++ rest = start' ++ rest') : start' <+: start ∧ ys <+: xs := by
  induction ys generalizing start xs start' with
  | nil =>
    cases h'
    exact ⟨List.nil_prefix, List.nil_prefix⟩
  | cons y ys ih =>
    cases h' with
    | @cons first' more' _ _ head' tail' =>
      rw [List.append_assoc] at same
      cases h with
      | nil =>
        rw [List.nil_append] at same
        rw [same, readOne_of_spells distinct head'] at stops
        cases stops
      | @cons first more x xs head tail =>
        rw [List.append_assoc] at same
        obtain ⟨rfl, rfl, same'⟩ := Spells.unique distinct head head' same
        obtain ⟨tokens, forms⟩ := ih tail tail' same'
        exact ⟨(List.prefix_append_right_inj first).2 tokens, List.cons_prefix_cons.2 ⟨rfl, forms⟩⟩

/-- All results are forms if and only if the tokens are a sequence of forms, and then the
results are these forms in order. -/
theorem readAll_eq_map_ok_iff (distinct : v.DelimitersDiffer) {tokens : List Text}
    {xs : List Value} : readAll v tokens = xs.map .ok ↔ SpellsAll v tokens xs := by
  constructor
  · intro read
    obtain ⟨start, ys, rest, rfl, spelled, ending⟩ := forms_then_end_or_error distinct tokens
    rw [readAll_of_spellsAll distinct spelled] at read
    rcases ending with rfl | ⟨some, e, error⟩
    · rw [readAll_nil, List.append_nil] at read
      rw [List.append_nil]
      have forms : ys = xs := (List.map_inj_right fun _ _ => Except.ok.inj).1 read
      exact forms ▸ spelled
    · -- an error would have to be one of the forms
      rw [readAll_of_error some error] at read
      have member : (.error e : Except ReadError Value) ∈ xs.map Except.ok := by
        rw [← read]
        simp
      obtain ⟨x, _, impossible⟩ := List.mem_map.1 member
      cases impossible
  · intro spelled
    have read := readAll_of_spellsAll distinct spelled []
    rwa [List.append_nil, readAll_nil, List.append_nil] at read

/-- Tokens that are no sequence of forms give the forms before the first fault and then
one error. -/
theorem readAll_of_not_spellsAll (distinct : v.DelimitersDiffer) {tokens : List Text}
    (h : ¬ ∃ xs, SpellsAll v tokens xs) :
    ∃ start xs rest e, tokens = start ++ rest ∧ SpellsAll v start xs ∧
      readOne v rest = .error e ∧ readAll v tokens = xs.map .ok ++ [.error e] := by
  obtain ⟨start, xs, rest, rfl, spelled, ending⟩ := forms_then_end_or_error distinct tokens
  rcases ending with rfl | ⟨some, e, error⟩
  · rw [List.append_nil] at h
    exact absurd ⟨xs, spelled⟩ h
  · refine ⟨start, xs, rest, e, rfl, spelled, error, ?_⟩
    rw [readAll_of_spellsAll distinct spelled, readAll_of_error some error]

/-! ## The reader and the grammar -/

/-- **The reader accepts exactly the grammar.**  For delimiters that differ, and for every
token sequence:

* a form is read, with a rest, if and only if the tokens before the rest spell it;
* these tokens are not none, and no others at the front spell anything;
* tokens that spell a form are read as that form in front of whatever follows;
* reading one form ends, with fewer tokens left or with a parse error;
* reading everything yields forms only if and only if the tokens are a sequence of forms,
  which are then the results in order;
* otherwise it yields the forms of the longest sequence of forms at the front, and after
  them one parse error. -/
theorem reader_accepts_exactly_the_grammar (v : Vocabulary) (distinct : v.DelimitersDiffer)
    (tokens : List Text) :
    (∀ x rest, readOne v tokens = .ok (x, rest) ↔
      ∃ start, tokens = start ++ rest ∧ Spells v start x) ∧
    (∀ start rest x, tokens = start ++ rest → Spells v start x →
      start ≠ [] ∧ ∀ start' rest' x', tokens = start' ++ rest' → Spells v start' x' →
        start' = start ∧ x' = x) ∧
    (∀ x, Spells v tokens x → ∀ rest, readOne v (tokens ++ rest) = .ok (x, rest)) ∧
    ((∃ x rest, readOne v tokens = .ok (x, rest) ∧ rest.length < tokens.length) ∨
      ∃ e, readOne v tokens = .error e ∧ ((Refusal.malformed e).report v).kind = .parse) ∧
    (∀ xs, readAll v tokens = xs.map .ok ↔ SpellsAll v tokens xs) ∧
    ((¬ ∃ xs, SpellsAll v tokens xs) →
      ∃ start rest xs e, tokens = start ++ rest ∧ SpellsAll v start xs ∧
        readAll v tokens = xs.map .ok ++ [.error e] ∧
        ((Refusal.malformed e).report v).kind = .parse ∧
        ∀ start' rest' xs', tokens = start' ++ rest' → SpellsAll v start' xs' →
          start' <+: start ∧ xs' <+: xs) := by
  refine ⟨fun x rest => readOne_eq_ok_iff distinct, ?_,
    fun x spelled rest => readOne_of_spells distinct spelled rest, ?_,
    fun xs => readAll_eq_map_ok_iff distinct, ?_⟩
  · intro start rest x split spelled
    refine ⟨spelled.ne_nil, ?_⟩
    intro start' rest' x' split' spelled'
    obtain ⟨starts, forms, _⟩ := Spells.unique distinct spelled' spelled (split' ▸ split)
    exact ⟨starts, forms⟩
  · cases read : readOne v tokens with
    | ok result => exact .inl ⟨result.1, result.2, rfl, length_lt_of_readOne distinct read⟩
    | error e => exact .inr ⟨e, rfl, rfl⟩
  · intro unspelled
    obtain ⟨start, xs, rest, e, rfl, spelled, error, read⟩ :=
      readAll_of_not_spellsAll distinct unspelled
    refine ⟨start, rest, xs, e, rfl, spelled, read, rfl, ?_⟩
    intro start' rest' xs' split' spelled'
    exact SpellsAll.is_longest distinct spelled error spelled' split'

/-- In words: a list with a quote in it, and a closing token too many. -/
theorem words_read_by_the_grammar :
    Vocabulary.words.DelimitersDiffer ∧
      readOne .words ["(", "'", "a", ")", ")"] = .ok (.list [.quote (.symbol "a")], [")"]) ∧
      ∃ start rest xs e, (["(", "'", "a", ")", ")"] : List Text) = start ++ rest ∧
        SpellsAll .words start xs ∧
        readAll .words ["(", "'", "a", ")", ")"] = xs.map .ok ++ [.error e] := by
  have distinct : Vocabulary.words.DelimitersDiffer := ⟨by decide, by decide, by decide⟩
  have grammar := reader_accepts_exactly_the_grammar .words distinct ["(", "'", "a", ")", ")"]
  obtain ⟨one, _, _, _, all, failing⟩ := grammar
  have atom : Spells .words ["a"] (.symbol "a") := .atom (by decide) (by decide) (by decide)
  refine ⟨distinct, (one _ _).2 ⟨["(", "'", "a", ")"], rfl, .list (.cons (.quote atom) .nil)⟩, ?_⟩
  have unspelled : ¬ ∃ xs, SpellsAll .words ["(", "'", "a", ")", ")"] xs := by
    rintro ⟨xs, spelled⟩
    have read := (all xs).2 spelled
    have last : (.error .unexpectedClose : Except ReadError Value) ∈ xs.map .ok := by
      rw [← read]
      exact List.mem_cons_of_mem _ List.mem_cons_self
    obtain ⟨x, _, impossible⟩ := List.mem_map.1 last
    cases impossible
  obtain ⟨start, rest, xs, e, split, spelled, read, _⟩ := failing unspelled
  exact ⟨start, rest, xs, e, split, spelled, read⟩

end Argot
