import Argot.Proofs.OwnWords

set_option autoImplicit false

/-!
# What cutting a text keeps

A text falls apart into whitespace, delimiters and words, where a word goes on until
whitespace or a delimiter begins.  The relation `Vocabulary.Cuts` says so without setting
anything off by spaces, and the tokens of a text are the delimiters and words of it
(`tokenize_of_cuts`).  What tokens keep of their text is then shown by going along the text.

Delimiters may be of any length and may begin in the middle of one another.  What matters is
that they are well-formed UTF-8: then none begins inside a character, none ends in one, and
whitespace is never cut.  The text itself may hold any bytes.
-/

namespace Argot

/-! ## Texts without their whitespace -/

namespace Text

/-- The text without its whitespace. -/
def withoutSpace (t : Text) : Text := (t.runes.filter fun r => !r.isSpace).flatMap Rune.encode

/-- The text is empty or starts with a byte that continues no character. -/
def Resumes (t : Text) : Prop := ∀ b ∈ t.head?, ¬ IsContinuation b

theorem resumes_char_append (c : Char) (t : Text) : Resumes (String.utf8EncodeChar c ++ t) := by
  obtain ⟨lead, tail, encodes⟩ := exists_encodes c
  rw [encodes.bytes]
  rintro b ⟨⟩
  exact encodes.starts

/-- Reading characters starts afresh there. -/
theorem runes_append_of_resumes {t : Text} (resumes : t.Resumes) (a : Text) :
    runes (a ++ t) = a.runes ++ t.runes := by
  cases t with
  | nil => simp [runes, runesFrom]
  | cons b t => exact runes_append_cons (resumes b rfl) a t

theorem withoutSpace_append {a t : Text} (apart : runes (a ++ t) = a.runes ++ t.runes) :
    withoutSpace (a ++ t) = a.withoutSpace ++ t.withoutSpace := by
  rw [withoutSpace, apart, List.filter_append, List.flatMap_append]
  rfl

theorem withoutSpace_of_solid {t : Text} (solid : t.hasSpace = false) : t.withoutSpace = t := by
  have all : t.runes.filter (fun r => !r.isSpace) = t.runes := by
    rw [List.filter_eq_self]
    simpa [hasSpace, List.any_eq_false] using solid
  rw [withoutSpace, all, flatMap_encode_runes]

theorem withoutSpace_char_append {c : Char} (blank : (Rune.char c).isSpace = true) (t : Text) :
    withoutSpace (String.utf8EncodeChar c ++ t) = t.withoutSpace := by
  simp [withoutSpace, runes_char_append, blank]

theorem hasSpace_append {a t : Text} (apart : runes (a ++ t) = a.runes ++ t.runes) :
    hasSpace (a ++ t) = (a.hasSpace || t.hasSpace) := by
  rw [hasSpace, apart, List.any_append]
  rfl

theorem hasSpace_char_append (c : Char) (t : Text) :
    hasSpace (String.utf8EncodeChar c ++ t) = ((Rune.char c).isSpace || t.hasSpace) := by
  rw [hasSpace, runes_char_append, List.any_cons]
  rfl

/-- A byte that starts no character in front of a text starts none in front of its beginning
either. -/
theorem hasSpace_stray_cons {b : UInt8} {w rest : Text} (stray : leading? b (w ++ rest) = none) :
    hasSpace (b :: w) = w.hasSpace := by
  have alone : leading? b w = none := by
    cases found : leading? b w with
    | none => rfl
    | some out =>
      obtain ⟨tail, start, encodes⟩ := leading?_eq_some_iff.1 found
      have longer := start.trans (List.prefix_append w rest)
      rw [leading?_eq_some_iff.2 ⟨tail, longer, encodes⟩] at stray
      cases stray
  rw [hasSpace, runes, runesFrom, alone]
  rfl

/-- A word in front of whitespace is the first of the words. -/
theorem fields_append_of_startsBlank {w t : Text} (nonempty : w ≠ []) (solid : w.hasSpace = false)
    (blank : t.StartsBlank) : fields (w ++ t) = w :: t.fields := by
  rcases blank with rfl | ⟨c, rest, blank, rfl⟩
  · rw [List.append_nil, fields_of_solid nonempty solid]
    rfl
  · rw [fields_append_char blank, fields_of_solid nonempty solid, fields_char_append blank]
    rfl

/-- A text starts with a character, or with a byte that starts none whatever follows the
text. -/
theorem cons_cases (b : UInt8) (t : Text) :
    (∃ c rest, b :: t = String.utf8EncodeChar c ++ rest) ∨ leading? b t = none := by
  cases found : leading? b t with
  | none => exact .inr rfl
  | some out =>
    obtain ⟨c, width⟩ := out
    obtain ⟨tail, ⟨rest, rfl⟩, encodes, -⟩ := leading?_eq_some_iff.1 found
    exact .inl ⟨c, rest, by rw [encodes.bytes]; rfl⟩

end Text

/-! ## Where delimiters start -/

section Delimiters

variable {v : Vocabulary}

/-- What starts in two texts put together starts in one of them. -/
theorem startsIn_append {a b rest : Text} (starts : v.StartsIn (a ++ b) rest) :
    v.StartsIn a (b ++ rest) ∨ v.StartsIn b rest := by
  obtain ⟨d, member, s, inside, some, start⟩ := starts
  rcases List.suffix_or_suffix_of_suffix inside (List.suffix_append a b) with within | ⟨s, rfl⟩
  · exact .inr ⟨d, member, s, within, some, start⟩
  · have inside := ((List.suffix_append_inj_of_length_eq rfl).1 inside).1
    by_cases empty : s = []
    · subst empty
      exact .inr ⟨d, member, b, List.suffix_rfl, some, start⟩
    · rw [List.append_assoc] at start
      exact .inl ⟨d, member, s, inside, empty, start⟩

/-- A character stands in front of a text only if the text starts with it. -/
theorem eq_of_char_prefix {c e : Char} {rest t : Text}
    (start : String.utf8EncodeChar e ++ rest <+: String.utf8EncodeChar c ++ t) : e = c :=
  isSome_after?_char.1 (isSome_after?_iff.2 ((List.prefix_append _ rest).trans start))

/-- A word ends where the text does, at whitespace or at a delimiter. -/
def Vocabulary.EndsWord (v : Vocabulary) (t : Text) : Prop :=
  t.StartsBlank ∨ ∃ d ∈ v.delimiters, d <+: t

/-- A valid vocabulary whose delimiters are well-formed UTF-8. -/
structure Vocabulary.CutsAtCharacters (v : Vocabulary) : Prop where
  valid : v.IsValid
  utf8 : ∀ d ∈ v.delimiters, d.isUtf8 = true

namespace Vocabulary.CutsAtCharacters

variable (cuts : v.CutsAtCharacters) {d : Text} (member : d ∈ v.delimiters)

include cuts member

/-- A delimiter starts with a character that is not whitespace. -/
theorem delimiter_eq : ∃ (c : Char) (rest : Text), (Rune.char c).isSpace = false ∧
    d = String.utf8EncodeChar c ++ rest := by
  obtain ⟨cs, rfl⟩ := Text.isUtf8_iff.1 (cuts.utf8 d member)
  cases cs with
  | nil => exact absurd rfl (cuts.valid.nonempty_delimiter member)
  | cons c cs =>
    have solid := hasSpace_ofChars.1 (cuts.valid.solid_delimiter member)
    exact ⟨c, Text.ofChars cs, solid c List.mem_cons_self, rfl⟩

/-- No delimiter starts at a byte that continues a character. -/
theorem not_prefix_of_continuation {b : UInt8} (continues : Text.IsContinuation b) (t : Text) :
    ¬ d <+: b :: t := by
  obtain ⟨c, rest, -, rfl⟩ := cuts.delimiter_eq member
  intro start
  obtain ⟨lead, tail, encodes⟩ := Text.exists_encodes c
  rw [encodes.bytes, List.cons_append, List.cons_prefix_cons] at start
  exact encodes.starts (start.1 ▸ continues)

theorem not_prefix_of_blank {c : Char} (blank : (Rune.char c).isSpace = true) (t : Text) :
    ¬ d <+: String.utf8EncodeChar c ++ t := by
  obtain ⟨e, rest, solid, rfl⟩ := cuts.delimiter_eq member
  intro start
  obtain rfl := eq_of_char_prefix start
  rw [solid] at blank
  cases blank

theorem resumes_append (t : Text) : Text.Resumes (d ++ t) := by
  obtain ⟨c, rest, -, rfl⟩ := cuts.delimiter_eq member
  rw [List.append_assoc]
  exact Text.resumes_char_append c _

/-- What stands in front of whitespace stands there without it: a delimiter that reached
further would hold the whitespace, or a part of it. -/
theorem prefix_append_blank_iff {c : Char} (blank : (Rune.char c).isSpace = true) {a b : Text} :
    d <+: a ++ (String.utf8EncodeChar c ++ b) ↔ d <+: a := by
  constructor
  · intro start
    rcases List.prefix_or_prefix_of_prefix start (List.prefix_append a _) with here | ⟨more, rfl⟩
    · exact here
    · cases more with
      | nil => simp
      | cons lead more =>
        rw [List.prefix_append_right_inj] at start
        have first : ¬ Text.IsContinuation lead := by
          obtain ⟨lead', tail, encodes⟩ := Text.exists_encodes c
          rw [encodes.bytes, List.cons_append, List.cons_prefix_cons] at start
          exact start.1 ▸ encodes.starts
        have apart := Text.runes_append_cons first a more
        have utf8 := cuts.utf8 _ member
        have solid := cuts.valid.solid_delimiter member
        rw [Text.isUtf8, apart, List.all_append, Bool.and_eq_true] at utf8
        rw [Text.hasSpace_append apart, Bool.or_eq_false_iff] at solid
        obtain ⟨cs, whole⟩ := Text.isUtf8_iff.1 utf8.2
        cases cs with
        | nil => cases whole
        | cons e cs =>
          rw [whole, Text.ofChars_cons] at start
          obtain rfl := eq_of_char_prefix start
          rw [whole, hasSpace_ofChars] at solid
          rw [solid.2 e List.mem_cons_self] at blank
          cases blank
  · intro start
    exact start.trans (List.prefix_append a _)

omit member

/-- What starts in a character starts at its front. -/
theorem not_startsIn_char {c : Char} {t : Text}
    (absent : ∀ d ∈ v.delimiters, ¬ d <+: String.utf8EncodeChar c ++ t) :
    ¬ v.StartsIn (String.utf8EncodeChar c) t := by
  rintro ⟨d, member, s, inside, some, start⟩
  obtain ⟨lead, tail, encodes⟩ := Text.exists_encodes c
  rw [encodes.bytes] at inside absent
  rcases List.suffix_cons_iff.1 inside with rfl | behind
  · exact absent d member start
  · obtain ⟨b, s, rfl⟩ := List.exists_cons_of_ne_nil some
    have continues := encodes.continues b (behind.subset List.mem_cons_self)
    exact cuts.not_prefix_of_continuation member continues _ start

/-- A text in which nothing starts is copied when the delimiters are set off. -/
theorem setOff_append {w t : Text} (whole : ¬ v.StartsIn w t) :
    setOff v.delimiters (w ++ t) = w ++ setOff v.delimiters t := by
  rcases setOff_append_cases cuts.valid w t with ⟨-, same⟩ | ⟨starts, -⟩
  · exact same
  · exact absurd starts whole

theorem setOff_blank_append {c : Char} (blank : (Rune.char c).isSpace = true) (t : Text) :
    setOff v.delimiters (String.utf8EncodeChar c ++ t) =
      String.utf8EncodeChar c ++ setOff v.delimiters t :=
  cuts.setOff_append
    (cuts.not_startsIn_char fun _ member => cuts.not_prefix_of_blank member blank t)

theorem startsBlank_setOff {t : Text} (ends : v.EndsWord t) :
    (setOff v.delimiters t).StartsBlank := by
  rcases ends with (rfl | ⟨c, rest, blank, rfl⟩) | ⟨d, member, rest, rfl⟩
  · exact .inl rfl
  · exact .inr ⟨c, _, blank, cuts.setOff_blank_append blank rest⟩
  · rw [setOff_append_of_mem cuts.valid member]
    exact startsBlank_space_append _

theorem resumes_of_endsWord {t : Text} (ends : v.EndsWord t) : t.Resumes := by
  rcases ends with (rfl | ⟨c, rest, -, rfl⟩) | ⟨d, member, rest, rfl⟩
  · rintro b ⟨⟩
  · exact Text.resumes_char_append c rest
  · exact cuts.resumes_append member rest

end Vocabulary.CutsAtCharacters

end Delimiters

/-! ## How a text falls apart -/

/-- The text falls apart into whitespace, delimiters and words, of which the delimiters and
the words are the tokens.  No delimiter starts in a word, not even one that would end behind
it. -/
inductive Vocabulary.Cuts (v : Vocabulary) : Text → List Text → Prop where
  | done : Cuts v [] []
  | blank {c : Char} {t : Text} {tokens : List Text} (space : (Rune.char c).isSpace = true)
      (rest : Cuts v t tokens) : Cuts v (String.utf8EncodeChar c ++ t) tokens
  | delimiter {d t : Text} {tokens : List Text} (member : d ∈ v.delimiters)
      (rest : Cuts v t tokens) : Cuts v (d ++ t) (d :: tokens)
  | word {w t : Text} {tokens : List Text} (nonempty : w ≠ []) (solid : w.hasSpace = false)
      (whole : ¬ v.StartsIn w t) (ends : v.EndsWord t) (rest : Cuts v t tokens) :
      Cuts v (w ++ t) (w :: tokens)

section Cuts

variable {v : Vocabulary} (cuts : v.CutsAtCharacters)

include cuts

/-- The tokens are what the text falls apart into. -/
theorem tokenize_of_cuts {t : Text} {tokens : List Text} (h : v.Cuts t tokens) :
    tokenize v t = tokens := by
  induction h with
  | done => rfl
  | blank space rest ih =>
    rw [tokenize, cuts.setOff_blank_append space, Text.fields_char_append space]
    exact ih
  | delimiter member rest ih => rw [tokenize_append_of_mem cuts.valid member, ih]
  | word nonempty solid whole ends rest ih =>
    rw [tokenize, cuts.setOff_append whole,
      Text.fields_append_of_startsBlank nonempty solid (cuts.startsBlank_setOff ends)]
    exact congrArg _ ih

omit cuts in
/-- Something solid in which nothing starts makes a word with the one behind it, or a word
of its own. -/
theorem Vocabulary.Cuts.solid_append {u t : Text} {tokens : List Text} (h : v.Cuts t tokens)
    (nonempty : u ≠ []) (whole : ¬ v.StartsIn u t)
    (solid : ∀ w rest, t = w ++ rest → w.hasSpace = false → Text.hasSpace (u ++ w) = false) :
    ∃ tokens', v.Cuts (u ++ t) tokens' := by
  have alone (ends : v.EndsWord t) : v.Cuts (u ++ t) (u :: tokens) := by
    refine .word nonempty ?_ whole ends h
    have := solid [] t rfl rfl
    rwa [List.append_nil] at this
  cases h with
  | done => exact ⟨_, alone (.inl (.inl rfl))⟩
  | blank space rest => exact ⟨_, alone (.inl (.inr ⟨_, _, space, rfl⟩))⟩
  | delimiter member rest => exact ⟨_, alone (.inr ⟨_, member, List.prefix_append _ _⟩)⟩
  | @word w rest tokens _ solid' whole' ends rest' =>
    refine ⟨(u ++ w) :: tokens, ?_⟩
    rw [← List.append_assoc]
    refine .word (by simp [nonempty]) (solid w rest rfl solid') ?_ ends rest'
    exact fun starts => (startsIn_append starts).elim whole whole'

/-- Every text falls apart. -/
theorem exists_cuts (t : Text) : ∃ tokens, v.Cuts t tokens := by
  cases found : leadingDelimiter? v.delimiters t with
  | some d =>
    obtain ⟨member, rest, whole⟩ := (leadingDelimiter?_eq_some_iff cuts.valid).1 found
    have some : 0 < d.length := List.length_pos_iff.2 (cuts.valid.nonempty_delimiter member)
    have shorter : rest.length < t.length := by
      rw [← whole, List.length_append]
      omega
    obtain ⟨tokens, h⟩ := exists_cuts rest
    exact ⟨d :: tokens, whole ▸ .delimiter member h⟩
  | none =>
    have absent := (leadingDelimiter?_eq_none_iff cuts.valid).1 found
    cases t with
    | nil => exact ⟨[], .done⟩
    | cons b t =>
      rcases Text.cons_cases b t with ⟨c, rest, whole⟩ | stray
      · have some : 0 < (String.utf8EncodeChar c).length :=
          List.length_pos_iff.2 String.utf8EncodeChar_ne_nil
        have shorter : rest.length < (b :: t).length := by
          rw [whole, List.length_append]
          omega
        obtain ⟨tokens, h⟩ := exists_cuts rest
        rw [whole] at absent ⊢
        by_cases space : (Rune.char c).isSpace = true
        · exact ⟨tokens, .blank space h⟩
        · refine h.solid_append String.utf8EncodeChar_ne_nil (cuts.not_startsIn_char absent) ?_
          intro w _ _ solid
          rw [Text.hasSpace_char_append, solid, Bool.or_false, Bool.eq_false_iff.2 space]
      · obtain ⟨tokens, h⟩ := exists_cuts t
        refine h.solid_append (List.cons_ne_nil b []) ?_ ?_
        · rintro ⟨d, member, s, inside, some, start⟩
          rcases List.suffix_cons_iff.1 inside with rfl | behind
          · exact absent d member start
          · exact some (List.suffix_nil.1 behind)
        · rintro w rest rfl solid
          exact (Text.hasSpace_stray_cons stray).trans solid
termination_by t.length
decreasing_by
  · exact shorter
  · exact Nat.lt_succ_self _
  · exact shorter

theorem cuts_tokenize (t : Text) : v.Cuts t (tokenize v t) := by
  obtain ⟨tokens, h⟩ := exists_cuts cuts t
  exact tokenize_of_cuts cuts h ▸ h

/-! ## What is kept -/

/-- A token is a delimiter or holds none, and it holds no whitespace. -/
structure Vocabulary.IsToken (v : Vocabulary) (w : Text) : Prop where
  nonempty : w ≠ []
  solid : w.hasSpace = false
  whole : w ∈ v.delimiters ∨ ∀ d ∈ v.delimiters, ¬ d <:+: w

theorem Vocabulary.Cuts.isToken {t : Text} {tokens : List Text} (h : v.Cuts t tokens) :
    ∀ w ∈ tokens, v.IsToken w := by
  induction h with
  | done => exact fun _ member => absurd member List.not_mem_nil
  | blank _ _ ih => exact ih
  | delimiter member _ ih =>
    refine List.forall_mem_cons.2 ⟨⟨?_, ?_, .inl member⟩, ih⟩
    · exact cuts.valid.nonempty_delimiter member
    · exact cuts.valid.solid_delimiter member
  | word nonempty solid whole _ _ ih =>
    refine List.forall_mem_cons.2 ⟨⟨nonempty, solid, .inr fun d member inside => whole ?_⟩, ih⟩
    exact (startsIn_iff cuts.valid).2 ⟨d, member, .inl (Text.hasInfix_iff.2 inside)⟩

/-- Nothing but whitespace is lost. -/
theorem Vocabulary.Cuts.flatten {t : Text} {tokens : List Text} (h : v.Cuts t tokens) :
    tokens.flatten = t.withoutSpace := by
  induction h with
  | done => rfl
  | blank space _ ih => rw [ih, Text.withoutSpace_char_append space]
  | @delimiter d t _ member _ ih =>
    obtain ⟨cs, rfl⟩ := Text.isUtf8_iff.1 (cuts.utf8 d member)
    have apart : Text.runes (Text.ofChars cs ++ t) = (Text.ofChars cs).runes ++ t.runes := by
      rw [Text.runes_ofChars_append, Text.runes_ofChars]
    rw [List.flatten_cons, ih, Text.withoutSpace_append apart,
      Text.withoutSpace_of_solid (cuts.valid.solid_delimiter member)]
  | @word w t _ _ solid _ ends _ ih =>
    have apart := Text.runes_append_of_resumes (cuts.resumes_of_endsWord ends) w
    rw [List.flatten_cons, ih, Text.withoutSpace_append apart, Text.withoutSpace_of_solid solid]

/-- Whitespace between two texts keeps them apart. -/
theorem Vocabulary.Cuts.append {a b : Text} {tokens tokens' : List Text} {c : Char}
    (first : v.Cuts a tokens) (blank : (Rune.char c).isSpace = true) (second : v.Cuts b tokens') :
    v.Cuts (a ++ (String.utf8EncodeChar c ++ b)) (tokens ++ tokens') := by
  induction first with
  | done => exact .blank blank second
  | blank space _ ih =>
    rw [List.append_assoc]
    exact .blank space ih
  | delimiter member _ ih =>
    rw [List.append_assoc]
    exact .delimiter member ih
  | @word w t _ nonempty solid whole ends _ ih =>
    rw [List.append_assoc]
    refine .word nonempty solid ?_ ?_ ih
    · rintro ⟨d, member, s, inside, some, start⟩
      rw [← List.append_assoc, cuts.prefix_append_blank_iff member blank] at start
      exact whole ⟨d, member, s, inside, some, start⟩
    · rcases ends with (rfl | ⟨e, rest, blank', rfl⟩) | ⟨d, member, start⟩
      · exact .inl (.inr ⟨c, b, blank, rfl⟩)
      · exact .inl (.inr ⟨e, _, blank', List.append_assoc _ _ _⟩)
      · exact .inr ⟨d, member, start.trans (List.prefix_append t _)⟩

omit cuts in
/-- A token by itself is cut no further. -/
theorem Vocabulary.IsToken.cuts_alone {w : Text} (token : v.IsToken w) : v.Cuts w [w] := by
  suffices h : v.Cuts (w ++ []) [w] by rwa [List.append_nil] at h
  rcases token.whole with member | absent
  · exact .delimiter member .done
  · refine .word token.nonempty token.solid ?_ (.inl (.inl rfl)) .done
    rintro ⟨d, member, s, inside, -, start⟩
    rw [List.append_nil] at start
    exact absent d member (start.isInfix.trans inside.isInfix)

theorem cuts_join : (tokens : List Text) → (∀ w ∈ tokens, v.IsToken w) →
    v.Cuts (Text.join Text.space tokens) tokens
  | [], _ => .done
  | [w], each => (each w List.mem_cons_self).cuts_alone
  | w :: u :: rest, each => by
    obtain ⟨first, others⟩ := List.forall_mem_cons.1 each
    have joined := first.cuts_alone.append cuts (c := ' ') rfl (cuts_join (u :: rest) others)
    rw [Text.join, List.append_assoc]
    exact joined

end Cuts

/-- **Cutting a text keeps everything but whitespace.**  Take a valid vocabulary whose
delimiters are well-formed UTF-8.

* No token of a text is empty or holds whitespace, and it is a delimiter or holds none.
* The tokens put together are the text without its whitespace.
* The tokens with spaces between them are cut into the same tokens again.
* Two texts with a whitespace character between them are cut into the tokens of the one and
  then those of the other. -/
theorem tokens_keep_all_but_whitespace {v : Vocabulary} (valid : v.IsValid)
    (utf8 : ∀ d ∈ v.delimiters, d.isUtf8 = true) :
    (∀ t : Text,
      (∀ w ∈ tokenize v t, w ≠ [] ∧ w.hasSpace = false ∧
        (w ∈ v.delimiters ∨ ∀ d ∈ v.delimiters, ¬ d <:+: w)) ∧
      (tokenize v t).flatten = t.withoutSpace ∧
      tokenize v (Text.join Text.space (tokenize v t)) = tokenize v t) ∧
    ∀ (a b : Text) (c : Char), (Rune.char c).isSpace = true →
      tokenize v (a ++ String.utf8EncodeChar c ++ b) = tokenize v a ++ tokenize v b := by
  have cuts : v.CutsAtCharacters := ⟨valid, utf8⟩
  constructor
  · intro t
    have parts := cuts_tokenize cuts t
    have tokens := parts.isToken cuts
    refine ⟨fun w member => ?_, parts.flatten cuts, tokenize_of_cuts cuts (cuts_join cuts _ tokens)⟩
    exact ⟨(tokens w member).nonempty, (tokens w member).solid, (tokens w member).whole⟩
  · intro a b c blank
    rw [List.append_assoc]
    exact tokenize_of_cuts cuts ((cuts_tokenize cuts a).append cuts blank (cuts_tokenize cuts b))

/-- Two delimiters of two letters, of which one ends as the other begins, and texts in which
they meet.  Between the texts is an ideographic space; in the first one is a byte that is no
character. -/
theorem overlapping_delimiters_keep_the_text :
    let v := (Vocabulary.words.set .quoteMark "ab").set .listClose "bc"
    let odd : Text := [0x63, 0x85, 0x61]
    let a : Text := Text.ofString "xab" ++ odd
    let b : Text := "babbc"
    let t := a ++ String.utf8EncodeChar '\u3000' ++ b
    v.IsValid ∧ (∀ d ∈ v.delimiters, d.isUtf8 = true) ∧
      tokenize v a = [Text.ofString "x", Text.ofString "ab", odd] ∧
      tokenize v b = ["b", "ab", "bc"] ∧
      tokenize v t = tokenize v a ++ tokenize v b ∧
      tokenize v (Text.join Text.space (tokenize v t)) = tokenize v t ∧
      (tokenize v t).flatten = a ++ b := by
  intro v odd a b t
  have valid : v.IsValid := by decide +kernel
  have utf8 : ∀ d ∈ v.delimiters, d.isUtf8 = true := by decide +kernel
  obtain ⟨each, between⟩ := tokens_keep_all_but_whitespace valid utf8
  obtain ⟨-, kept, again⟩ := each t
  have less : t.withoutSpace = a ++ b := by decide +kernel
  exact ⟨valid, utf8, by decide +kernel, by decide +kernel, between a b _ (by decide), again,
    kept.trans less⟩

end Argot
