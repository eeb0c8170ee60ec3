import Argot.Completion
import Argot.Proofs.Cutting

set_option autoImplicit false

/-!
# The last word of a line

Completion looks for the last word of a line from the end: it starts behind the last space, the last
tab and the last delimiter.  Tokens are cut from the front, at all whitespace.  Where the delimiters
are single characters the two agree on what stands before the last word, and they agree on the last
word itself just if there is no other whitespace in it
(`completion_replaces_what_follows_the_last_stop`).

The argument goes along the characters of the line, not along its bytes: a character is found only
where the line has it (`Text.lastOffset?_char_append`), never across two others.
-/

namespace Argot

/-! ## The last place of a character -/

namespace Text

theorem lastOffset?_cons (needle : Text) (b : UInt8) (t : Text) :
    lastOffset? needle (b :: t) =
      ((lastOffset? needle t).map (· + 1)).or
        (if (after? needle (b :: t)).isSome then some 0 else none) := by
  rw [lastOffset?]
  cases lastOffset? needle t <;> rfl

/-- What is found ends within the text. -/
theorem add_length_le_of_lastOffset? {needle t : Text} {i : Nat}
    (found : lastOffset? needle t = some i) : i + needle.length ≤ t.length := by
  induction t generalizing i with
  | nil =>
    cases needle with
    | nil =>
      cases found
      exact Nat.le_refl 0
    | cons b needle => cases found
  | cons b t ih =>
    rw [lastOffset?_cons] at found
    cases later : lastOffset? needle t with
    | some j =>
      rw [later] at found
      cases found
      have := ih later
      simp only [List.length_cons]
      omega
    | none =>
      rw [later] at found
      by_cases here : (after? needle (b :: t)).isSome = true
      · rw [if_pos here] at found
        cases found
        rw [Nat.zero_add]
        exact (isSome_after?_iff.1 here).length_le
      · rw [if_neg here] at found
        cases found

/-- No character is found at bytes that continue one. -/
theorem lastOffset?_continuations_append {a : Text} (continues : ∀ b ∈ a, IsContinuation b)
    (c : Char) (t : Text) :
    lastOffset? (String.utf8EncodeChar c) (a ++ t) =
      (lastOffset? (String.utf8EncodeChar c) t).map (· + a.length) := by
  induction a with
  | nil => simp
  | cons b a ih =>
    have rest := ih fun e member => continues e (List.mem_cons_of_mem b member)
    rw [List.cons_append, lastOffset?_cons, rest,
      after?_continuation (continues b List.mem_cons_self)]
    cases lastOffset? (String.utf8EncodeChar c) t <;> simp [Nat.add_assoc]

/-- A character is found later on, or at the front if the text starts with it. -/
theorem lastOffset?_char_append (c e : Char) (t : Text) :
    lastOffset? (String.utf8EncodeChar c) (String.utf8EncodeChar e ++ t) =
      ((lastOffset? (String.utf8EncodeChar c) t).map
          (· + (String.utf8EncodeChar e).length)).or
        (if c = e then some 0 else none) := by
  have front := @isSome_after?_char e c t
  obtain ⟨lead, tail, encodes⟩ := exists_encodes e
  rw [encodes.bytes, List.cons_append] at *
  rw [lastOffset?_cons, lastOffset?_continuations_append encodes.continues]
  congr 1
  · simp [Function.comp_def, Nat.add_assoc]
  · exact ite_congr (propext front) (fun _ => rfl) fun _ => rfl

theorem ofChars_append (as bs : List Char) : ofChars (as ++ bs) = ofChars as ++ ofChars bs :=
  List.flatMap_append

/-- What a character does not occur in does not matter for its last place. -/
theorem lastOffset?_append_of_not_mem {c : Char} {bs : List Char} (absent : c ∉ bs)
    (as : List Char) :
    lastOffset? (String.utf8EncodeChar c) (ofChars (as ++ bs)) =
      lastOffset? (String.utf8EncodeChar c) (ofChars as) := by
  induction as with
  | nil =>
    induction bs with
    | nil => rfl
    | cons b bs ih =>
      obtain ⟨differ, absent⟩ := not_or.1 (List.mem_cons.not.1 absent)
      rw [List.nil_append, ofChars_cons, lastOffset?_char_append, if_neg differ]
      rw [List.nil_append] at ih
      rw [ih absent]
      simp [ofChars, lastOffset?, String.utf8EncodeChar_ne_nil]
  | cons a as ih =>
    rw [List.cons_append, ofChars_cons, ofChars_cons, lastOffset?_char_append,
      lastOffset?_char_append, ih]

/-- The last character of a text is found at the end of it. -/
theorem lastOffset?_concat (c : Char) (as : List Char) :
    lastOffset? (String.utf8EncodeChar c) (ofChars (as ++ [c])) = some (ofChars as).length := by
  induction as with
  | nil =>
    rw [List.nil_append, ofChars_cons, lastOffset?_char_append, if_pos rfl]
    simp [ofChars, lastOffset?, String.utf8EncodeChar_ne_nil]
  | cons a as ih =>
    rw [List.cons_append, ofChars_cons, lastOffset?_char_append, ih, ofChars_cons,
      List.length_append, Nat.add_comm]
    rfl

end Text

/-! ## Where the last word starts -/

/-- What completion takes for the end of a word: a space, a tab or a delimiter. -/
def Vocabulary.stops (v : Vocabulary) : List Text := Text.space :: [0x09] :: v.delimiters

section LastWord

variable {v : Vocabulary}

theorem singleCharacters_stops (single : SingleCharacters v.delimiters) :
    SingleCharacters v.stops := by
  intro d member
  rcases List.mem_cons.1 member with rfl | member
  · exact ⟨' ', rfl⟩
  · rcases List.mem_cons.1 member with rfl | member
    · exact ⟨'\t', rfl⟩
    · exact single d member

/-- The characters fall apart behind the last stop. -/
structure Vocabulary.SplitsAt (v : Vocabulary) (before word : List Char) : Prop where
  plain : ∀ c ∈ word, String.utf8EncodeChar c ∉ v.stops
  ends : before = [] ∨ ∃ front c, before = front ++ [c] ∧ String.utf8EncodeChar c ∈ v.stops

/-- There is such a place in every line. -/
theorem exists_splitsAt (v : Vocabulary) (cs : List Char) :
    ∃ before word, cs = before ++ word ∧ v.SplitsAt before word := by
  induction cs with
  | nil => exact ⟨[], [], rfl, by simp, .inl rfl⟩
  | cons c cs ih =>
    obtain ⟨before, word, rfl, split⟩ := ih
    rcases split.ends with rfl | ⟨front, e, rfl, stop⟩
    · by_cases stop : String.utf8EncodeChar c ∈ v.stops
      · exact ⟨[c], word, rfl, split.plain, .inr ⟨[], c, rfl, stop⟩⟩
      · exact ⟨[], c :: word, rfl, List.forall_mem_cons.2 ⟨stop, split.plain⟩, .inl rfl⟩
    · exact ⟨c :: (front ++ [e]), word, rfl, split.plain, .inr ⟨c :: front, e, rfl, stop⟩⟩

theorem foldl_max_eq {ends : List Nat} {m : Nat} (within : ∀ e ∈ ends, e ≤ m)
    (reached : m = 0 ∨ m ∈ ends) : ends.foldl max 0 = m := by
  rw [List.foldl_max, Nat.zero_max]
  cases largest : ends.max? with
  | none =>
    obtain rfl := List.max?_eq_none_iff.1 largest
    exact (reached.resolve_right List.not_mem_nil).symm
  | some e =>
    obtain ⟨member, above⟩ := List.max?_eq_some_iff.1 largest
    have below := within e member
    rcases reached with rfl | member'
    · exact Nat.le_zero.1 below
    · exact Nat.le_antisymm below (above m member')

/-- The word starts where the line falls apart. -/
theorem wordStart_eq (single : SingleCharacters v.delimiters) {before word : List Char}
    (split : v.SplitsAt before word) :
    wordStart v (Text.ofChars (before ++ word)) = (Text.ofChars before).length := by
  have found {c : Char} (stop : String.utf8EncodeChar c ∈ v.stops) :
      Text.lastOffset? (String.utf8EncodeChar c) (Text.ofChars (before ++ word)) =
        Text.lastOffset? (String.utf8EncodeChar c) (Text.ofChars before) :=
    Text.lastOffset?_append_of_not_mem (fun member => split.plain c member stop) before
  refine foldl_max_eq ?_ ?_
  · intro e member
    obtain ⟨d, stop, ends⟩ := List.mem_filterMap.1 member
    obtain ⟨c, rfl⟩ := singleCharacters_stops single d stop
    rw [found stop] at ends
    obtain ⟨i, last, rfl⟩ := Option.map_eq_some_iff.1 ends
    exact Text.add_length_le_of_lastOffset? last
  · rcases split.ends with rfl | ⟨front, c, rfl, stop⟩
    · exact .inl rfl
    · refine .inr (List.mem_filterMap.2 ⟨_, stop, ?_⟩)
      rw [found stop, Text.lastOffset?_concat, Text.ofChars_append, List.length_append]
      simp [Text.ofChars]

/-! ## Tokens before the last word and in it -/

theorem setOff_ofChars_append (single : SingleCharacters v.delimiters) (cs : List Char) (t : Text) :
    setOff v.delimiters (Text.ofChars cs ++ t) =
      setOff v.delimiters (Text.ofChars cs) ++ setOff v.delimiters t := by
  induction cs with
  | nil => rfl
  | cons c cs ih =>
    rw [Text.ofChars_cons, List.append_assoc, setOff_char_append single, setOff_char_append single,
      ih]
    split <;> simp only [List.append_assoc]

/-- A stop that is no delimiter is whitespace. -/
theorem isSpace_of_mem_stops {c : Char} (stop : String.utf8EncodeChar c ∈ v.stops)
    (other : String.utf8EncodeChar c ∉ v.delimiters) : (Rune.char c).isSpace = true := by
  have blank {e : Char} (bytes : String.utf8EncodeChar c = String.utf8EncodeChar e)
      (space : (Rune.char e).isSpace = true) : (Rune.char c).isSpace = true := by
    have front := @isSome_after?_char e c []
    rw [← bytes, Text.after?_append] at front
    rw [front.1 rfl, space]
  rcases List.mem_cons.1 stop with bytes | stop
  · exact @blank ' ' bytes rfl
  · rcases List.mem_cons.1 stop with bytes | stop
    · exact @blank '\t' bytes rfl
    · exact absurd stop other

/-- What is in front of a stop and what is behind it are cut by themselves. -/
theorem tokenize_append_of_stop (valid : v.IsValid) (single : SingleCharacters v.delimiters)
    {c : Char} (stop : String.utf8EncodeChar c ∈ v.stops) (front : List Char) (t : Text) :
    tokenize v (Text.ofChars (front ++ [c]) ++ t) =
      tokenize v (Text.ofChars (front ++ [c])) ++ tokenize v t := by
  -- both sides are read off the text in front of the stop
  suffices cut : ∃ tokens, ∀ t, tokenize v (Text.ofChars (front ++ [c]) ++ t) =
      tokens ++ tokenize v t by
    obtain ⟨tokens, cut⟩ := cut
    have alone := cut []
    have nothing : tokenize v [] = [] := rfl
    rw [List.append_nil, nothing, List.append_nil] at alone
    rw [alone, cut]
  have apart (t : Text) : Text.ofChars (front ++ [c]) ++ t =
      Text.ofChars front ++ (String.utf8EncodeChar c ++ t) := by
    simp [Text.ofChars]
  by_cases delimiter : String.utf8EncodeChar c ∈ v.delimiters
  · refine ⟨(setOff v.delimiters (Text.ofChars front)).fields ++ [String.utf8EncodeChar c], ?_⟩
    intro t
    rw [apart, tokenize, setOff_ofChars_append single, fields_setOff_append_of_mem valid delimiter,
      List.append_assoc]
    rfl
  · refine ⟨(setOff v.delimiters (Text.ofChars front)).fields, ?_⟩
    intro t
    rw [apart, tokenize, setOff_ofChars_append single, setOff_char_append single,
      if_neg delimiter, Text.fields_append_char (isSpace_of_mem_stops stop delimiter)]
    rfl

/-- The tokens of a line are those before the last word and the fields of the word. -/
theorem tokenize_of_splitsAt (valid : v.IsValid) (single : SingleCharacters v.delimiters)
    {before word : List Char} (split : v.SplitsAt before word) :
    tokenize v (Text.ofChars (before ++ word)) =
      tokenize v (Text.ofChars before) ++ (Text.ofChars word).fields := by
  have inWord : tokenize v (Text.ofChars word) = (Text.ofChars word).fields := by
    have plain : ∀ c ∈ word, String.utf8EncodeChar c ∉ v.delimiters := fun c member delimiter =>
      split.plain c member (List.mem_cons_of_mem _ (List.mem_cons_of_mem _ delimiter))
    have copied := setOff_chars_append single plain []
    have nothing : setOff v.delimiters [] = [] := rfl
    rw [nothing, List.append_nil] at copied
    rw [tokenize, copied]
  rw [Text.ofChars_append, ← inWord]
  rcases split.ends with rfl | ⟨front, c, rfl, stop⟩
  · rfl
  · exact tokenize_append_of_stop valid single stop front _

/-- Something follows the last stop in a line that ends in none. -/
theorem word_ne_nil {before word : List Char} (split : v.SplitsAt before word)
    (nonempty : Text.ofChars (before ++ word) ≠ [])
    (last : ∀ r ∈ (Text.ofChars (before ++ word)).runes.getLast?,
      r.isSpace = false ∧ r.encode ∉ v.delimiters) : word ≠ [] := by
  rintro rfl
  rw [List.append_nil] at nonempty last
  rcases split.ends with rfl | ⟨front, c, rfl, stop⟩
  · exact nonempty rfl
  · obtain ⟨solid, other⟩ := last (.char c) (by simp [Text.runes_ofChars])
    rw [isSpace_of_mem_stops stop other] at solid
    cases solid

theorem not_infix_word (single : SingleCharacters v.delimiters) {before word : List Char}
    (split : v.SplitsAt before word) : ∀ d ∈ v.stops, ¬ d <:+: Text.ofChars word := by
  intro d stop inside
  obtain ⟨c, rfl⟩ := singleCharacters_stops single d stop
  exact split.plain c (hasInfix_ofChars.1 (Text.hasInfix_iff.2 inside)) stop

theorem hasSpace_word {before word : List Char} (split : v.SplitsAt before word)
    (blanks : ∀ r ∈ (Text.ofChars (before ++ word)).runes,
      r.isSpace = true → r = .char ' ' ∨ r = .char '\t') :
    (Text.ofChars word).hasSpace = false := by
  refine hasSpace_ofChars.2 fun c member => Bool.eq_false_iff.2 fun space => ?_
  have among : Rune.char c ∈ (Text.ofChars (before ++ word)).runes := by
    rw [Text.runes_ofChars]
    exact List.mem_map_of_mem (List.mem_append_right before member)
  refine split.plain c member ?_
  rcases blanks _ among space with same | same
  · rw [Rune.char.inj same]
    exact List.mem_cons_self
  · rw [Rune.char.inj same]
    exact List.mem_cons_of_mem _ List.mem_cons_self

end LastWord

/-! ## What is offered -/

namespace Ranking

theorem mem_place {score : Int} {candidate : Text} {ranked : List (Int × Text)}
    {entry : Int × Text} :
    entry ∈ place score candidate ranked ↔ entry = (score, candidate) ∨ entry ∈ ranked := by
  induction ranked with
  | nil => simp [place]
  | cons other rest ih =>
    unfold place
    split
    · simp
    · simp [ih, or_left_comm]

/-- The ranking with one more candidate. -/
def add (pattern : Text) (ranked : List (Int × Text)) (candidate : Text) : List (Int × Text) :=
  match score? pattern candidate with
  | some score => place score candidate ranked
  | none => ranked

theorem mem_add {pattern candidate : Text} {ranked : List (Int × Text)} {entry : Int × Text} :
    entry ∈ add pattern ranked candidate ↔
      entry ∈ ranked ∨ entry.2 = candidate ∧ score? pattern entry.2 = some entry.1 := by
  obtain ⟨score, name⟩ := entry
  unfold add
  cases scored : score? pattern candidate with
  | none =>
    refine (or_iff_left ?_).symm
    rintro ⟨rfl, matched⟩
    rw [scored] at matched
    cases matched
  | some best =>
    rw [mem_place, or_comm]
    refine or_congr_right ?_
    rw [Prod.mk.injEq, and_comm]
    refine and_congr_right ?_
    rintro rfl
    rw [scored, Option.some.injEq, eq_comm]

theorem mem_foldl_add {pattern : Text} {candidates : List Text} {ranked : List (Int × Text)}
    {entry : Int × Text} :
    entry ∈ candidates.foldl (add pattern) ranked ↔
      entry ∈ ranked ∨ entry.2 ∈ candidates ∧ score? pattern entry.2 = some entry.1 := by
  induction candidates generalizing ranked with
  | nil => simp
  | cons c candidates ih =>
    rw [List.foldl_cons, ih, mem_add, List.mem_cons, or_and_right, or_assoc]

/-- All candidates that match are ranked, and nothing else. -/
theorem mem_rank {pattern candidate : Text} {candidates : List Text} :
    candidate ∈ rank pattern candidates ↔
      candidate ∈ candidates ∧ (score? pattern candidate).isSome = true := by
  have ranked : rank pattern candidates =
      (candidates.foldl (add pattern) []).map Prod.snd := rfl
  simp [ranked, mem_foldl_add, Option.isSome_iff_exists]

end Ranking

/-- What is offered for a line. -/
theorem Machine.mem_completions {m : Machine} {line completed : Text} :
    completed ∈ m.completions line ↔
      let start := wordStart m.interpreter.vocabulary line
      line.drop start ≠ [] ∧ ∃ name ∈ m.candidates (start = 0) (line.drop start),
        (Ranking.score? (line.drop start) name).isSome = true ∧
          completed = line.take start ++ name := by
  rw [completions]
  generalize wordStart m.interpreter.vocabulary line = start
  by_cases empty : line.drop start = []
  · simp [empty]
  · simp only [List.isEmpty_iff, empty, if_false, List.mem_map, Ranking.mem_rank, and_assoc,
      ne_eq, not_false_eq_true, true_and, @eq_comm _ completed]

/-- The word is the last token just if it holds no whitespace. -/
theorem getLast?_tokenize_iff {v : Vocabulary} (cuts : v.CutsAtCharacters) {line lead word : Text}
    (nonempty : word ≠ []) (tokens : tokenize v line = tokenize v lead ++ word.fields) :
    (tokenize v line).getLast? = some word ↔ word.hasSpace = false := by
  constructor
  · intro last
    exact ((cuts_tokenize cuts line).isToken cuts word (List.mem_of_getLast? last)).solid
  · intro solid
    rw [tokens, Text.fields_of_solid nonempty solid, List.getLast?_concat]

/-- **Completing a line replaces what follows its last space, tab or delimiter.**  Take a valid
vocabulary whose delimiters are single characters, and a line of well-formed UTF-8 that is not empty
and ends neither in whitespace nor in a delimiter.  The line is a lead, which is empty or ends in a
space, a tab or a delimiter, and a word, which is not empty and holds none of them.

* The tokens of the line are those of the lead and then the fields of the word.  So the word is the
  last token just if there is no whitespace in it, as there is none if spaces and tabs are all the
  whitespace in the line.
* What is offered is the lead with a candidate behind it in place of the word, for each candidate
  that the word matches. -/
theorem completion_replaces_what_follows_the_last_stop {m : Machine} {line : Text}
    (valid : m.interpreter.vocabulary.IsValid)
    (single : SingleCharacters m.interpreter.vocabulary.delimiters) (utf8 : line.isUtf8 = true)
    (nonempty : line ≠ [])
    (last : ∀ r ∈ line.runes.getLast?,
      r.isSpace = false ∧ r.encode ∉ m.interpreter.vocabulary.delimiters) :
    let v := m.interpreter.vocabulary
    let lead : Text := line.take (wordStart v line)
    let word : Text := line.drop (wordStart v line)
    (lead = [] ∨ ∃ d ∈ v.stops, d <:+ lead) ∧ word ≠ [] ∧ (∀ d ∈ v.stops, ¬ d <:+: word) ∧
    tokenize v line = tokenize v lead ++ word.fields ∧
    ((tokenize v line).getLast? = some word ↔ word.hasSpace = false) ∧
    (word.hasSpace = false → tokenize v line = tokenize v lead ++ [word]) ∧
    ((∀ r ∈ line.runes, r.isSpace = true → r = .char ' ' ∨ r = .char '\t') →
      word.hasSpace = false) ∧
    ∀ completed : Text, completed ∈ m.completions line ↔
      ∃ name ∈ m.candidates (lead = []) word,
        (Ranking.score? word name).isSome = true ∧ completed = lead ++ name := by
  intro v lead word
  obtain ⟨cs, rfl⟩ := Text.isUtf8_iff.1 utf8
  obtain ⟨before, after, rfl, split⟩ := exists_splitsAt v cs
  have start := wordStart_eq single split
  have isLead : lead = Text.ofChars before := by
    show List.take _ _ = _
    rw [start, Text.ofChars_append, List.take_left]
  have isWord : word = Text.ofChars after := by
    show List.drop _ _ = _
    rw [start, Text.ofChars_append, List.drop_left]
  have something : word ≠ [] := by
    rw [isWord]
    obtain ⟨c, rest, rfl⟩ := List.exists_cons_of_ne_nil (word_ne_nil split nonempty last)
    simp [String.utf8EncodeChar_ne_nil]
  have tokens : tokenize v (Text.ofChars (before ++ after)) = tokenize v lead ++ word.fields := by
    rw [isLead, isWord]
    exact tokenize_of_splitsAt valid single split
  have cuts : v.CutsAtCharacters := by
    refine ⟨valid, fun d member => ?_⟩
    obtain ⟨c, rfl⟩ := single d member
    exact Text.isUtf8_iff.2 ⟨[c], by simp [Text.ofChars]⟩
  refine ⟨?_, something, ?_, tokens, getLast?_tokenize_iff cuts something tokens, ?_, ?_, ?_⟩
  · rw [isLead]
    rcases split.ends with rfl | ⟨front, c, rfl, stop⟩
    · exact .inl rfl
    · refine .inr ⟨_, stop, ?_⟩
      rw [Text.ofChars_append]
      simp [Text.ofChars]
  · rw [isWord]
    exact not_infix_word single split
  · intro solid
    rw [tokens, Text.fields_of_solid something solid]
  · rw [isWord]
    exact hasSpace_word split
  · intro completed
    have atStart :
        decide (wordStart v (Text.ofChars (before ++ after)) = 0) = decide (lead = []) := by
      rw [isLead, start]
      simp
    rw [Machine.mem_completions, ← atStart]
    exact and_iff_right something

theorem singleCharacters_words : SingleCharacters Vocabulary.words.delimiters := by
  refine List.forall_mem_cons.2 ⟨⟨'(', by decide⟩, List.forall_mem_cons.2 ⟨⟨')', by decide⟩, ?_⟩⟩
  exact List.forall_mem_singleton.2 ⟨Char.ofNat 0x27, by decide⟩

/-- In the last list of a line the beginning of a name is completed, and the line before it is left
as it is. -/
theorem name_is_completed_in_its_list :
    let m := Machine.create (.standard .words) ∅
    let line : Text := "(+ 1 (ca"
    (tokenize .words line).getLast? = some "ca" ∧
      Text.ofString "(+ 1 (car" ∈ m.completions line := by
  intro m line
  have valid : m.interpreter.vocabulary.IsValid := by decide +kernel
  have facts : line.isUtf8 = true ∧ line ≠ [] ∧
      (∀ r ∈ line.runes.getLast?, r.isSpace = false ∧ r.encode ∉ Vocabulary.words.delimiters) ∧
      line.drop (wordStart .words line) = Text.ofString "ca" ∧
      (∀ r ∈ line.runes, r.isSpace = true → r = .char ' ' ∨ r = .char '\t') := by decide +kernel
  obtain ⟨utf8, nonempty, last, word, blanks⟩ := facts
  obtain ⟨-, -, -, -, token, -, solid, offered⟩ :=
    completion_replaces_what_follows_the_last_stop valid singleCharacters_words utf8 nonempty last
  refine ⟨?_, (offered _).2 ⟨"car", by decide +kernel, by decide +kernel, by decide +kernel⟩⟩
  exact (token.2 (solid blanks)).trans (congrArg _ word)

/-- An ideographic space ends a token but not the word that is completed: what is looked for is
`x` and `ca` with the space between them.  The name that the token matches is not offered. -/
theorem ideographic_space_hides_the_last_token :
    let m := Machine.create (.standard .words) ∅
    let line : Text := Text.ofString "x" ++ String.utf8EncodeChar '\u3000' ++ Text.ofString "ca"
    m.interpreter.vocabulary.IsValid ∧ SingleCharacters m.interpreter.vocabulary.delimiters ∧
      line.isUtf8 = true ∧ tokenize .words line = ["x", "ca"] ∧
      line.drop (wordStart .words line) = line ∧
      Text.ofString "car" ∈ m.candidates false "ca" ∧
      (Ranking.score? "ca" "car").isSome = true ∧
      line ++ Text.ofString "r" ∉ m.completions line := by
  intro m line
  have valid : m.interpreter.vocabulary.IsValid := by decide +kernel
  have facts : line.isUtf8 = true ∧ tokenize .words line = ["x", "ca"] ∧
      wordStart .words line = 0 ∧ Text.ofString "car" ∈ m.candidates false "ca" ∧
      line ++ Text.ofString "r" ∉ m.candidates true line := by decide +kernel
  obtain ⟨utf8, tokens, start, candidate, other⟩ := facts
  have offered : (Ranking.score? "ca" "car").isSome = true := by decide +kernel
  refine ⟨valid, singleCharacters_words, utf8, tokens, ?_, candidate, offered, ?_⟩
  · rw [start, List.drop_zero]
  · rw [Machine.mem_completions]
    rintro ⟨-, name, member, -, same⟩
    have atStart : wordStart m.interpreter.vocabulary line = 0 := start
    rw [atStart, List.take_zero, List.nil_append] at same
    rw [atStart, List.drop_zero, ← same] at member
    exact other member

end Argot
