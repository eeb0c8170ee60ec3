import Argot.Proofs.Batching
import Argot.Proofs.NumberText

set_option autoImplicit false

/-!
# The words of a vocabulary in a program

What a valid vocabulary promises is that its words can be told apart after a program has been cut
into tokens.  Here is how far that goes.

* A word that stands alone is one token.  It is read as what it is for, unless it spells a number
  that is too large to be represented: the check of a vocabulary lets such a word pass, the reader
  takes it for an infinity (`own_words_are_read_unless_too_large`).
* A word or a number between the delimiters of a list is one token exactly if no delimiter starts
  in it.  A delimiter can stand inside a number, which the check does not look at, and it can be
  made of the end of a word and the beginning of the closing delimiter (`Straddles`), which the
  check does not look at either (`atoms_are_cut_by_what_starts_in_them`).

Nothing here asks for well-formed UTF-8.
-/

namespace Argot

/-! ## Texts without whitespace -/

namespace Text

theorem openField_of_solid {rs : List Rune} (solid : ∀ r ∈ rs, r.isSpace = false) :
    openField rs = (rs.flatMap Rune.encode, []) := by
  induction rs with
  | nil => rfl
  | cons r rs ih =>
    have rest := ih fun s member => solid s (List.mem_cons_of_mem r member)
    simp [openField, rest, solid r List.mem_cons_self]

/-- A text without whitespace is a single word. -/
theorem fields_of_solid {t : Text} (nonempty : t ≠ []) (solid : t.hasSpace = false) :
    t.fields = [t] := by
  have runes : ∀ r ∈ t.runes, r.isSpace = false := by
    simpa [hasSpace, List.any_eq_false] using solid
  simp [fields, openField_of_solid runes, nonempty]

theorem length_le_of_openField (rs : List Rune) :
    (openField rs).1.length ≤ (rs.flatMap Rune.encode).length ∧
      ∀ w ∈ (openField rs).2, w.length ≤ (rs.flatMap Rune.encode).length := by
  induction rs with
  | nil => simp [openField]
  | cons r rs ih =>
    obtain ⟨first, others⟩ := ih
    have longer (w : Text) (short : w.length ≤ (rs.flatMap Rune.encode).length) :
        w.length ≤ ((r :: rs).flatMap Rune.encode).length := by
      rw [List.flatMap_cons, List.length_append]
      omega
    unfold openField
    dsimp only
    split
    · refine ⟨Nat.zero_le _, ?_⟩
      split
      · exact fun w member => longer w (others w member)
      · rintro w (_ | ⟨_, member⟩)
        · exact longer _ first
        · exact longer w (others w member)
    · refine ⟨?_, fun w member => longer w (others w member)⟩
      rw [List.flatMap_cons, List.length_append, List.length_append]
      omega

/-- No word of a text is longer than the text. -/
theorem length_le_of_mem_fields {t w : Text} (member : w ∈ t.fields) : w.length ≤ t.length := by
  obtain ⟨first, others⟩ := length_le_of_openField t.runes
  rw [flatMap_encode_runes] at first others
  rw [fields_eq_wordsOf, wordsOf] at member
  split at member
  · exact others w member
  · rcases List.mem_cons.1 member with rfl | member
    · exact first
    · exact others w member

/-- A space belongs to no word. -/
theorem fields_append_space (a b : Text) : fields (a ++ (space ++ b)) = a.fields ++ b.fields :=
  fields_append_char (c := ' ') rfl a b

end Text

/-! ## The tokens of a vocabulary -/

namespace Vocabulary

/-- What a token that is no delimiter is for: a truth value, or a name. -/
def meaning (v : Vocabulary) (t : Text) : Value :=
  if t = v.trueWord then .boolean true
  else if t = v.falseWord then .boolean false
  else .symbol t

theorem listOpen_mem_delimiters (v : Vocabulary) : v.listOpen ∈ v.delimiters := List.mem_cons_self

theorem listClose_mem_delimiters (v : Vocabulary) : v.listClose ∈ v.delimiters :=
  List.mem_cons_of_mem _ List.mem_cons_self

/-- Delimiters that stand at the same place are the same. -/
theorem IsValid.eq_of_prefix {v : Vocabulary} (valid : v.IsValid) {d e t : Text}
    (delimiter : d ∈ v.delimiters) (delimiter' : e ∈ v.delimiters) (stands : d <+: t)
    (stands' : e <+: t) : d = e := by
  have inside {d e : Text} (delimiter : d ∈ v.delimiters) (delimiter' : e ∈ v.delimiters)
      (front : d <+: e) : d = e := by
    by_contra differ
    have absent := valid.not_inside delimiter (v.delimiter_mem_tokens delimiter') (Ne.symm differ)
    exact Bool.eq_false_iff.1 absent (Text.hasInfix_iff.2 front.isInfix)
  rcases List.prefix_or_prefix_of_prefix stands stands' with front | front
  · exact inside delimiter delimiter' front
  · exact (inside delimiter' delimiter front).symm

end Vocabulary

/-! ## Where delimiters start -/

/-- The delimiter begins in the text and ends in what follows. -/
def Straddles (d t rest : Text) : Prop :=
  ∃ s p, d = s ++ p ∧ s ≠ [] ∧ p ≠ [] ∧ s <:+ t ∧ p <+: rest

/-- A delimiter starts in a text if it stands in it or across its end. -/
theorem starts_inside_iff {d t rest : Text} (nonempty : d ≠ []) :
    (∃ b, b <:+ t ∧ b ≠ [] ∧ d <+: b ++ rest) ↔
      Text.hasInfix d t = true ∨ Straddles d t rest := by
  rw [Text.hasInfix_iff]
  constructor
  · rintro ⟨b, inside, some, start⟩
    rcases List.prefix_or_prefix_of_prefix start (List.prefix_append b rest) with within | ⟨p, rfl⟩
    · exact .inl (within.isInfix.trans inside.isInfix)
    · by_cases whole : p = []
      · subst whole
        rw [List.append_nil]
        exact .inl inside.isInfix
      · exact .inr ⟨b, p, rfl, some, whole, inside, (List.prefix_append_right_inj b).1 start⟩
  · rintro (⟨a, b, rfl⟩ | ⟨s, p, rfl, some, _, inside, start⟩)
    · refine ⟨d ++ b, ⟨a, (List.append_assoc a d b).symm⟩, by simp [nonempty], ?_⟩
      rw [List.append_assoc]
      exact List.prefix_append d _
    · exact ⟨s, inside, some, (List.prefix_append_right_inj s).2 start⟩

section Delimiters

variable {v : Vocabulary}

/-- Some delimiter starts in the text, given what follows the text. -/
def Vocabulary.StartsIn (v : Vocabulary) (t rest : Text) : Prop :=
  ∃ d ∈ v.delimiters, ∃ b, b <:+ t ∧ b ≠ [] ∧ d <+: b ++ rest

theorem leadingDelimiter?_eq_none_iff (valid : v.IsValid) {t : Text} :
    leadingDelimiter? v.delimiters t = none ↔ ∀ d ∈ v.delimiters, ¬ d <+: t := by
  rw [leadingDelimiter?, List.find?_eq_none]
  refine forall₂_congr fun d member => not_congr ?_
  have some := valid.nonempty_delimiter member
  simp [isSome_after?_iff, some]

/-- The delimiter that is found at the front is the one that stands there. -/
theorem leadingDelimiter?_eq_some_iff (valid : v.IsValid) {d t : Text} :
    leadingDelimiter? v.delimiters t = some d ↔ d ∈ v.delimiters ∧ d <+: t := by
  have stands {e : Text} (found : leadingDelimiter? v.delimiters t = some e) :
      e ∈ v.delimiters ∧ e <+: t := by
    have front := List.find?_some found
    rw [Bool.and_eq_true, isSome_after?_iff] at front
    exact ⟨List.mem_of_find?_eq_some found, front.2⟩
  refine ⟨stands, fun ⟨member, front⟩ => ?_⟩
  cases found : leadingDelimiter? v.delimiters t with
  | none => exact absurd front ((leadingDelimiter?_eq_none_iff valid).1 found d member)
  | some e =>
    obtain ⟨member', front'⟩ := stands found
    rw [valid.eq_of_prefix member member' front front']

/-- A delimiter at the front is set off, and what follows it is looked at afresh. -/
theorem setOff_append_of_mem (valid : v.IsValid) {d : Text} (member : d ∈ v.delimiters)
    (rest : Text) :
    setOff v.delimiters (d ++ rest) =
      Text.space ++ (d ++ (Text.space ++ setOff v.delimiters rest)) := by
  have found := (leadingDelimiter?_eq_some_iff valid).2 ⟨member, List.prefix_append d rest⟩
  obtain ⟨b, d, rfl⟩ := List.exists_cons_of_ne_nil (valid.nonempty_delimiter member)
  rw [List.cons_append] at found
  rw [setOff, List.cons_append, setOffFrom, found]
  simp only [List.length_cons, Nat.add_sub_cancel, setOffFrom_length_append, List.append_assoc]
  rfl

theorem startsIn_cons_iff (valid : v.IsValid) {b : UInt8} {t rest : Text}
    (absent : leadingDelimiter? v.delimiters (b :: t ++ rest) = none) :
    v.StartsIn (b :: t) rest ↔ v.StartsIn t rest := by
  constructor
  · rintro ⟨d, member, s, inside, some, start⟩
    rcases List.suffix_cons_iff.1 inside with rfl | inside
    · exact absurd start ((leadingDelimiter?_eq_none_iff valid).1 absent d member)
    · exact ⟨d, member, s, inside, some, start⟩
  · rintro ⟨d, member, s, inside, some, start⟩
    exact ⟨d, member, s, inside.trans (List.suffix_cons b t), some, start⟩

/-- A text is copied to its end, or it is cut where a delimiter starts in it. -/
theorem setOff_append_cases (valid : v.IsValid) (t rest : Text) :
    (¬ v.StartsIn t rest ∧ setOff v.delimiters (t ++ rest) = t ++ setOff v.delimiters rest) ∨
      (v.StartsIn t rest ∧ ∃ a x, ∃ d ∈ v.delimiters, a.length < t.length ∧
        setOff v.delimiters (t ++ rest) = a ++ (Text.space ++ (d ++ (Text.space ++ x)))) := by
  induction t with
  | nil =>
    refine .inl ⟨?_, rfl⟩
    rintro ⟨d, _, b, inside, some, _⟩
    exact some (List.suffix_nil.1 inside)
  | cons b t ih =>
    cases found : leadingDelimiter? v.delimiters (b :: t ++ rest) with
    | some d =>
      obtain ⟨member, start⟩ := (leadingDelimiter?_eq_some_iff valid).1 found
      refine .inr ⟨⟨d, member, b :: t, List.suffix_rfl, List.cons_ne_nil b t, start⟩, ?_⟩
      obtain ⟨x, whole⟩ := start
      refine ⟨[], setOff v.delimiters x, d, member, Nat.succ_pos _, ?_⟩
      rw [← whole, setOff_append_of_mem valid member, List.nil_append]
    | none =>
      have copied : setOff v.delimiters (b :: t ++ rest) = b :: setOff v.delimiters (t ++ rest) :=
        setOffFrom_cons_of_none valid.withinLines found
      rw [startsIn_cons_iff valid found, copied]
      rcases ih with ⟨none, same⟩ | ⟨some, a, x, d, member, shorter, same⟩
      · exact .inl ⟨none, congrArg (b :: ·) same⟩
      · exact .inr ⟨some, b :: a, x, d, member, Nat.succ_lt_succ shorter, congrArg (b :: ·) same⟩

/-- A text that is cut is not a token. -/
theorem fields_cut_ne (valid : v.IsValid) {t a x d : Text} (delimiter : d ∈ v.delimiters)
    (other : t ∉ v.delimiters) (shorter : a.length < t.length) (rest : List Text) :
    (a ++ (Text.space ++ (d ++ (Text.space ++ x)))).fields ≠ t :: rest := by
  rw [Text.fields_append_space, Text.fields_append_space,
    Text.fields_of_solid (valid.nonempty_delimiter delimiter) (valid.solid_delimiter delimiter)]
  intro same
  cases first : a.fields with
  | nil =>
    rw [first] at same
    exact other ((List.cons.inj same).1 ▸ delimiter)
  | cons w ws =>
    rw [first] at same
    have short := Text.length_le_of_mem_fields (first ▸ List.mem_cons_self : w ∈ a.fields)
    rw [(List.cons.inj same).1] at short
    omega

/-- A delimiter is a token, whatever stands around it. -/
theorem fields_setOff_append_of_mem (valid : v.IsValid) {d : Text} (member : d ∈ v.delimiters)
    (a rest : Text) :
    (a ++ setOff v.delimiters (d ++ rest)).fields = a.fields ++ d :: tokenize v rest := by
  rw [setOff_append_of_mem valid member, Text.fields_append_space, Text.fields_append_space,
    Text.fields_of_solid (valid.nonempty_delimiter member) (valid.solid_delimiter member)]
  rfl

/-- A delimiter stands for itself at the front of a program. -/
theorem tokenize_append_of_mem (valid : v.IsValid) {d : Text} (member : d ∈ v.delimiters)
    (rest : Text) : tokenize v (d ++ rest) = d :: tokenize v rest :=
  fields_setOff_append_of_mem valid member [] rest

/-- A text stays whole before the end of a list exactly if no delimiter starts in it. -/
theorem tokenize_listed_iff (valid : v.IsValid) {t : Text} (nonempty : t ≠ [])
    (solid : t.hasSpace = false) (other : t ∉ v.delimiters) :
    tokenize v (v.listOpen ++ t ++ v.listClose) = [v.listOpen, t, v.listClose] ↔
      ¬ v.StartsIn t v.listClose := by
  rw [List.append_assoc, tokenize_append_of_mem valid v.listOpen_mem_delimiters,
    List.cons_inj_right]
  have closing := fields_setOff_append_of_mem valid v.listClose_mem_delimiters t []
  rw [List.append_nil, Text.fields_of_solid nonempty solid] at closing
  rcases setOff_append_cases valid t v.listClose with
    ⟨none, same⟩ | ⟨starts, _, _, _, member, shorter, same⟩
  · rw [tokenize, same]
    exact iff_of_true closing none
  · rw [tokenize, same]
    exact iff_of_false (fields_cut_ne valid member other shorter _) (not_not_intro starts)

theorem startsIn_iff (valid : v.IsValid) {t rest : Text} :
    v.StartsIn t rest ↔ ∃ d ∈ v.delimiters, Text.hasInfix d t = true ∨ Straddles d t rest :=
  exists_congr fun _ => and_congr_right fun member =>
    starts_inside_iff (valid.nonempty_delimiter member)

/-- A token of the vocabulary that is no delimiter is a token when it stands alone. -/
theorem tokenize_word (valid : v.IsValid) {t : Text} (member : t ∈ v.tokens)
    (word : t ∉ v.delimiters) : tokenize v t = [t] := by
  obtain ⟨nonempty, solid, -⟩ := valid.token_passes member
  have whole : ¬ v.StartsIn t [] := by
    rw [startsIn_iff valid]
    rintro ⟨d, delimiter, inside | ⟨s, p, -, -, some, -, front⟩⟩
    · have absent := valid.not_inside delimiter member fun same => word (same ▸ delimiter)
      exact Bool.eq_false_iff.1 absent inside
    · exact some (List.prefix_nil.1 front)
  rcases setOff_append_cases valid t [] with ⟨-, same⟩ | ⟨starts, -⟩
  · have empty : setOff v.delimiters [] = [] := rfl
    rw [List.append_nil, empty, List.append_nil] at same
    rw [tokenize, same, Text.fields_of_solid nonempty solid]
  · exact absurd starts whole

end Delimiters

/-! ## Reading the words -/

namespace Numeral

theorem isInfinite_value_of_overflows {n : Numeral} (large : n.overflows = true) :
    n.value.isInfinite = true := by
  have infinite (negative : Bool) {m : Nat} (same : (m == Binary64.infinite) = true) :
      (Binary64.ofMagnitude negative m).isInfinite = true := by
    obtain rfl := beq_iff_eq.1 same
    rw [Binary64.isInfinite, Binary64.magnitude_ofMagnitude negative (by decide)]
    exact same
  cases n with
  | infinity | nan => cases large
  | decimal negative | binary negative => exact infinite negative large

end Numeral

section Reading

variable {v : Vocabulary} {t : Text}

/-- A token other than the delimiters is read by itself. -/
theorem readAll_atom (valid : v.IsValid) (word : t ∉ v.delimiters) :
    readAll v [t] = [.ok (readAtom v t)] := by
  obtain ⟨notOpen, notClose, notQuote⟩ :
      t ≠ v.listOpen ∧ t ≠ v.listClose ∧ t ≠ v.quoteMark := by
    simpa [Vocabulary.delimiters] using word
  exact readAll_of_spellsAll valid.delimitersDiffer
    (.cons (.atom notOpen notClose notQuote) .nil) []

theorem readAtom_of_numeral {n : Numeral} (numeral : Numeral.parse? t = some n) :
    readAtom v t = .number n.value := by
  rw [readAtom, numeral]

theorem readAtom_of_none (none : Numeral.parse? t = none) : readAtom v t = v.meaning t := by
  rw [readAtom, none]
  rfl

theorem meaning_ne_number (v : Vocabulary) (t : Text) (n : Binary64) :
    v.meaning t ≠ .number n := by
  unfold Vocabulary.meaning
  split
  · exact nofun
  · split <;> exact nofun

/-- A token of a valid vocabulary spells at most a number that is too large. -/
theorem Vocabulary.IsValid.overflows (valid : v.IsValid) (member : t ∈ v.tokens) {n : Numeral}
    (numeral : Numeral.parse? t = some n) : n.overflows = true := by
  have refused := (valid.token_passes member).2.2
  rw [Vocabulary.isNumeral, numeral] at refused
  simpa using refused

end Reading

/-- **A valid vocabulary reads its own words, but for names that spell too large a number.**  A
reserved token or an arithmetic name that is no delimiter is a program of one token.  It is read as
what it is for, that is as its truth value or as the symbol of that name, if and only if it is no
numeral at all.  A numeral among the words is one that is too large to be represented; no arithmetic
name is one.  It is read as an infinite number, so nothing can be called by this name. -/
theorem own_words_are_read_unless_too_large {v : Vocabulary} (valid : v.IsValid) {t : Text}
    (member : t ∈ v.tokens) (word : t ∉ v.delimiters) :
    tokenize v t = [t] ∧
    (readAll v (tokenize v t) = [.ok (v.meaning t)] ↔ Numeral.parse? t = none) ∧
    ∀ n, Numeral.parse? t = some n →
      n.overflows = true ∧ n.value.isInfinite = true ∧ t ∉ Vocabulary.arithmetic ∧
      readAll v (tokenize v t) = [.ok (.number n.value)] := by
  have alone := tokenize_word valid member word
  rw [alone, readAll_atom valid word]
  refine ⟨rfl, ⟨fun same => ?_, fun none => by rw [readAtom_of_none none]⟩, fun n numeral => ?_⟩
  · cases numeral : Numeral.parse? t with
    | none => rfl
    | some n =>
      rw [readAtom_of_numeral numeral] at same
      simp [(meaning_ne_number v t n.value).symm] at same
  · have large := valid.overflows member numeral
    refine ⟨large, Numeral.isInfinite_value_of_overflows large, fun sign => ?_, ?_⟩
    · have none : ∀ s ∈ Vocabulary.arithmetic, Numeral.parse? s = none := by decide
      rw [none t sign] at numeral
      cases numeral
    · rw [readAtom_of_numeral numeral]

/-- The picture for truth is read as such. -/
theorem thumb_up_is_read_as_true :
    let v := Vocabulary.pictures
    v.IsValid ∧ v.trueWord ∈ v.tokens ∧ v.trueWord ∉ v.delimiters ∧
      readAll v (tokenize v v.trueWord) = [.ok (.boolean true)] := by
  intro v
  have valid : v.IsValid := by decide +kernel
  have member : v.trueWord ∈ v.tokens := by decide
  have word : v.trueWord ∉ v.delimiters := by decide
  have plain : Numeral.parse? v.trueWord = none := by decide
  refine ⟨valid, member, word, ?_⟩
  exact (own_words_are_read_unless_too_large valid member word).2.1.2 plain

/-- With `1e999` for the conditional the vocabulary passes its check, and the conditional cannot be
named: the word is read as an infinity. -/
theorem conditional_spelled_as_large_number_is_lost :
    let v := Vocabulary.words.set .ifForm "1e999"
    v.IsValid ∧ v.ifForm ∈ v.tokens ∧ v.ifForm ∉ v.delimiters ∧
      readAll v (tokenize v v.ifForm) = [.ok (.number (Binary64.infinity false))] := by
  intro v
  have valid : v.IsValid := by decide +kernel
  have member : v.ifForm ∈ v.tokens := by decide
  have word : v.ifForm ∉ v.delimiters := by decide
  have numeral : (Numeral.parse? v.ifForm).map Numeral.value = some (Binary64.infinity false) := by
    decide +kernel
  obtain ⟨n, read, value⟩ := Option.map_eq_some_iff.1 numeral
  refine ⟨valid, member, word, ?_⟩
  rw [tokenize_word valid member word, readAll_atom valid word, readAtom_of_numeral read, value]

/-! ## Atoms in lists -/

section Atoms

variable {v : Vocabulary} {t : Text}

/-- The text of a number spells a number that can be represented. -/
theorem isNumeral_text (x : Binary64) : Vocabulary.isNumeral x.text = true := by
  rcases x.text_cases with ⟨-, text⟩ | ⟨-, -, text⟩ | ⟨present, finite, -⟩
  · rw [text]
    decide
  · rw [text]
    cases x.isNegative <;> decide
  · obtain ⟨n, read, value⟩ := x.parse?_text
    rw [Vocabulary.isNumeral, read, Option.any_some, Bool.not_eq_true']
    by_contra large
    have infinite := Numeral.isInfinite_value_of_overflows (Bool.not_eq_false _ ▸ large)
    rw [value, Binary64.plain, present] at infinite
    exact Nat.ne_of_lt finite (beq_iff_eq.1 infinite)

/-- The text of a number is no token of a valid vocabulary. -/
theorem Vocabulary.IsValid.text_not_mem (valid : v.IsValid) (x : Binary64) : x.text ∉ v.tokens :=
  fun member => Bool.false_ne_true ((valid.token_passes member).2.2.symm.trans (isNumeral_text x))

/-- What the printer writes beside the delimiters: a word of the vocabulary or a number. -/
def Vocabulary.IsAtom (v : Vocabulary) (t : Text) : Prop :=
  (t ∈ v.tokens ∧ t ∉ v.delimiters) ∨ ∃ x : Binary64, t = x.text

theorem Vocabulary.IsAtom.word (valid : v.IsValid) (atom : v.IsAtom t) :
    t ≠ [] ∧ t.hasSpace = false ∧ t ∉ v.delimiters := by
  rcases atom with ⟨member, word⟩ | ⟨x, rfl⟩
  · obtain ⟨nonempty, solid, -⟩ := valid.token_passes member
    exact ⟨nonempty, solid, word⟩
  · exact ⟨x.text_ne_nil, x.hasSpace_text, fun delimiter =>
      valid.text_not_mem x (v.delimiter_mem_tokens delimiter)⟩

/-- No character is made of the end of one and the beginning of another. -/
theorem not_straddles (single : SingleCharacters v.delimiters) {d : Text}
    (member : d ∈ v.delimiters) : ¬ Straddles d t v.listClose := by
  rintro ⟨s, p, parts, some, more, -, front⟩
  obtain ⟨c, rfl⟩ := single d member
  obtain ⟨e, close⟩ := single _ v.listClose_mem_delimiters
  obtain ⟨lead, tail, encodes⟩ := Text.exists_encodes c
  obtain ⟨lead', tail', encodes'⟩ := Text.exists_encodes e
  obtain ⟨b, s, rfl⟩ := List.exists_cons_of_ne_nil some
  obtain ⟨b', p, rfl⟩ := List.exists_cons_of_ne_nil more
  rw [encodes.bytes, List.cons_append] at parts
  rw [close, encodes'.bytes, List.cons_prefix_cons] at front
  have continues : Text.IsContinuation b' := by
    refine encodes.continues b' ?_
    rw [(List.cons.inj parts).2]
    exact List.mem_append_right s List.mem_cons_self
  exact encodes'.starts (front.1 ▸ continues)

end Atoms

/-- **Delimiters cut the atoms in which they start, and no others.**  In a valid vocabulary, a
reserved token, an arithmetic name or a number that is written right between the delimiters of a
list is one token, and the delimiters are the tokens around it, if and only if no delimiter stands
inside it or is made of its end and the beginning of the closing delimiter.  The check of a
vocabulary rules out the first for the words, though not for the numbers; the second it does not
rule out, but with delimiters of one character each there is no such thing. -/
theorem atoms_are_cut_by_what_starts_in_them {v : Vocabulary} (valid : v.IsValid) {t : Text}
    (atom : v.IsAtom t) :
    (tokenize v (v.listOpen ++ t ++ v.listClose) = [v.listOpen, t, v.listClose] ↔
      ∀ d ∈ v.delimiters, Text.hasInfix d t = false ∧ ¬ Straddles d t v.listClose) ∧
    (t ∈ v.tokens → ∀ d ∈ v.delimiters, Text.hasInfix d t = false) ∧
    (SingleCharacters v.delimiters → ∀ d ∈ v.delimiters, ¬ Straddles d t v.listClose) := by
  obtain ⟨nonempty, solid, word⟩ := atom.word valid
  refine ⟨?_, fun member d delimiter => ?_, fun single d member => not_straddles single member⟩
  · rw [tokenize_listed_iff valid nonempty solid word, startsIn_iff valid]
    simp only [not_exists, not_and, not_or, Bool.not_eq_true]
  · exact valid.not_inside delimiter member fun same => word (same ▸ delimiter)

/-- In pictures, the word for the conditional stays whole, and so does a number with a point. -/
theorem pictures_keep_atoms_whole :
    let v := Vocabulary.pictures
    let n : Text := "1.5"
    v.IsValid ∧ v.IsAtom v.ifForm ∧ v.IsAtom n ∧ SingleCharacters v.delimiters ∧
      tokenize v (v.listOpen ++ v.ifForm ++ v.listClose) = [v.listOpen, v.ifForm, v.listClose] ∧
      tokenize v (v.listOpen ++ n ++ v.listClose) = [v.listOpen, n, v.listClose] := by
  intro v n
  have valid : v.IsValid := by decide +kernel
  have member : v.ifForm ∈ v.tokens := by decide
  have word : v.IsAtom v.ifForm := .inl ⟨member, by decide⟩
  have number : v.IsAtom n := .inr ⟨⟨0x3FF8000000000000⟩, by decide +kernel⟩
  have single : SingleCharacters v.delimiters := by
    intro d delimiter
    have among : d ∈ ['💖', '💔', '😪'].map String.utf8EncodeChar := delimiter
    obtain ⟨c, -, same⟩ := List.mem_map.1 among
    exact ⟨c, same.symm⟩
  have pointless : ∀ d ∈ v.delimiters, Text.hasInfix d n = false := by decide
  obtain ⟨whole, inside, across⟩ := atoms_are_cut_by_what_starts_in_them valid word
  obtain ⟨whole', -, across'⟩ := atoms_are_cut_by_what_starts_in_them valid number
  refine ⟨valid, word, number, single, whole.2 fun d delimiter => ?_,
    whole'.2 fun d delimiter => ?_⟩
  · exact ⟨inside member d delimiter, across single d delimiter⟩
  · exact ⟨pointless d delimiter, across' single d delimiter⟩

/-- With a point for the quote mark, the vocabulary passes its check and a number is cut at its
point.  Delimiters of two letters pass too, when one is made of the last letter of a word and the
first one of the closing delimiter. -/
theorem valid_delimiters_cut_a_number_and_a_word :
    (let v := Vocabulary.words.set .quoteMark "."
     let x : Binary64 := ⟨0x3FF8000000000000⟩
     v.IsValid ∧ x.text = "1.5" ∧
       tokenize v (v.listOpen ++ x.text ++ v.listClose) = ["(", "1", ".", "5", ")"]) ∧
    (let v := ((Vocabulary.words.set .quoteMark "ab").set .listClose "bc").set .carName "xa"
     v.IsValid ∧ v.carName = "xa" ∧
       tokenize v (v.listOpen ++ v.carName ++ v.listClose) = ["(", "x", "ab", "c"]) := by
  have text : (⟨0x3FF8000000000000⟩ : Binary64).text = "1.5" := by decide +kernel
  refine ⟨⟨by decide +kernel, text, ?_⟩, by decide +kernel, by decide, by decide⟩
  rw [text]
  decide

end Argot
