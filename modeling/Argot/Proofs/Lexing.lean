import Argot.Token

set_option autoImplicit false

/-!
# Cutting concatenated texts

A text that is put together from delimiters, words and spaces is cut into those
delimiters and words again.  The argument goes through the characters of a text.  UTF-8
is read back character by character, whatever bytes follow (`runes_char_append`), and a
character starts at no byte inside another one.  So a delimiter that is a single
character is found exactly where that character stands (`setOff_char_append`).

The results are three equations for the tokens of a text that starts with a space, with
a delimiter or with a word (`tokenize_space_append`, `tokenize_delimiter_append`,
`tokenize_word_append`).
-/

namespace Argot

/-! ## Reading characters back -/

namespace Text

/-- A byte that continues a character. -/
def IsContinuation (b : UInt8) : Prop := 0x80 ≤ b.toNat ∧ b.toNat < 0xC0

/-- The continuation byte that carries the six lowest bits of a number. -/
def continuation (n : Nat) : UInt8 := UInt8.ofNat (n % 64 + 0x80)

theorem toNat_continuation (n : Nat) : (continuation n).toNat = n % 64 + 0x80 :=
  UInt8.toNat_ofNat_of_lt' (show n % 64 + 0x80 < 256 by omega)

/-- What a character's bytes are: a byte that continues none and then bytes that do.  The
character is read back from them, whatever follows. -/
structure Encodes (lead : UInt8) (tail : Text) (c : Char) : Prop where
  bytes : String.utf8EncodeChar c = lead :: tail
  starts : ¬ IsContinuation lead
  continues : ∀ b ∈ tail, IsContinuation b
  leading (t : Text) : leading? lead (tail ++ t) = some (c, tail.length + 1)

/-- A character of one byte. -/
theorem encodes_one {c : Char} {n : Nat} (bytes : String.utf8EncodeChar c = [UInt8.ofNat n])
    (code : n = c.toNat) (small : n ≤ 0x7F) : Encodes (UInt8.ofNat n) [] c := by
  have lead : (UInt8.ofNat n).toNat = n := UInt8.toNat_ofNat_of_lt' (show n < 256 by omega)
  have ascii : UInt8.ofNat n < 0x80 := by
    rw [UInt8.lt_iff_toNat_lt, lead]
    exact Nat.lt_succ_of_le small
  refine ⟨bytes, ?_, by simp, fun t => ?_⟩
  · rw [IsContinuation, lead]
    omega
  · rw [leading?, if_pos ascii, lead, code, Char.ofNat_toNat]
    rfl

/-- A character of several bytes, given by the number in its lead byte, the marker bits of
that byte and the numbers of which its other bytes carry the lowest bits. -/
theorem encodes_several {c : Char} (lead mark : Nat) (rest : List Nat)
    (bytes : String.utf8EncodeChar c = UInt8.ofNat lead :: rest.map continuation)
    (range : 0xC0 ≤ lead ∧ lead < 0x100)
    (shape : (if lead < 0xE0 then (2, 0xC0) else if lead < 0xF0 then (3, 0xE0) else (4, 0xF0)) =
      (rest.length + 1, mark))
    (carried : rest.foldl (fun n k => n * 64 + k % 64) (lead - mark) = c.toNat) :
    Encodes (UInt8.ofNat lead) (rest.map continuation) c := by
  have toNat : (UInt8.ofNat lead).toNat = lead := UInt8.toNat_ofNat_of_lt' range.2
  refine ⟨bytes, ?_, ?_, fun t => ?_⟩
  · rw [IsContinuation, toNat]
    omega
  · intro b member
    obtain ⟨k, -, rfl⟩ := List.mem_map.1 member
    rw [IsContinuation, toNat_continuation]
    omega
  · have seq : (UInt8.ofNat lead :: (rest.map continuation ++ t)).take (rest.length + 1) =
        UInt8.ofNat lead :: rest.map continuation := by simp
    have carries (k : Nat) : (continuation k).toNat % 64 = k % 64 := by
      rw [toNat_continuation]
      omega
    have payload : payload mark (UInt8.ofNat lead :: rest.map continuation) = c.toNat := by
      simp only [payload, toNat, List.foldl_map, carries, carried]
    have large : ¬ UInt8.ofNat lead < 0x80 := by
      rw [UInt8.lt_iff_toNat_lt, toNat]
      exact Nat.not_lt.2 (show 0x80 ≤ lead by omega)
    have shape' : (if UInt8.ofNat lead < 0xE0 then (2, 0xC0)
        else if UInt8.ofNat lead < 0xF0 then (3, 0xE0) else (4, 0xF0)) =
          (rest.length + 1, mark) := by
      simp only [UInt8.lt_iff_toNat_lt, toNat]
      exact shape
    rw [leading?, if_neg large, shape']
    simp only [seq, payload, List.length_map]
    rw [sequence?, Char.ofNat_toNat, if_pos ⟨c.valid, bytes⟩]
    rfl

/-- Every character is encoded by a lead byte and continuation bytes. -/
theorem exists_encodes (c : Char) : ∃ lead tail, Encodes lead tail c := by
  have bound : c.toNat < 0x110000 := by
    have valid := c.valid
    simp only [UInt32.isValidChar, Nat.isValidChar] at valid
    rw [Char.toNat]
    omega
  have bytes := String.utf8EncodeChar.eq_1 c
  simp only [← Char.toNat.eq_1] at bytes
  -- one case for each number of bytes
  by_cases one : c.toNat ≤ 0x7F
  · rw [if_pos one] at bytes
    exact ⟨_, _, encodes_one bytes rfl one⟩
  rw [if_neg one] at bytes
  by_cases two : c.toNat ≤ 0x7FF
  · rw [if_pos two] at bytes
    refine ⟨_, _, encodes_several (c.toNat / 64 % 32 + 0xC0) 0xC0 [c.toNat] bytes (by omega) ?_ ?_⟩
    · rw [if_pos (by omega)]
      rfl
    · simp only [List.foldl_cons, List.foldl_nil]
      omega
  rw [if_neg two] at bytes
  by_cases three : c.toNat ≤ 0xFFFF
  · rw [if_pos three] at bytes
    refine ⟨_, _, encodes_several (c.toNat / 4096 % 16 + 0xE0) 0xE0 [c.toNat / 64, c.toNat] bytes
      (by omega) ?_ ?_⟩
    · rw [if_neg (by omega), if_pos (by omega)]
      rfl
    · simp only [List.foldl_cons, List.foldl_nil]
      omega
  · rw [if_neg three] at bytes
    refine ⟨_, _, encodes_several (c.toNat / 262144 % 8 + 0xF0) 0xF0
      [c.toNat / 4096, c.toNat / 64, c.toNat] bytes (by omega) ?_ ?_⟩
    · rw [if_neg (by omega), if_neg (by omega)]
      rfl
    · simp only [List.foldl_cons, List.foldl_nil]
      omega

theorem runesFrom_length_append (a t : Text) : runesFrom a.length (a ++ t) = runesFrom 0 t := by
  induction a with
  | nil => rfl
  | cons b a ih => exact ih

/-- A character is read back, whatever bytes follow it. -/
theorem runes_char_append (c : Char) (t : Text) :
    runes (String.utf8EncodeChar c ++ t) = .char c :: t.runes := by
  obtain ⟨lead, tail, encodes⟩ := exists_encodes c
  rw [encodes.bytes, runes, List.cons_append, runesFrom, encodes.leading t]
  simp only [Nat.add_sub_cancel, runesFrom_length_append]
  rfl

/-- The text of a list of characters. -/
def ofChars (cs : List Char) : Text := cs.flatMap String.utf8EncodeChar

@[simp] theorem ofChars_cons (c : Char) (cs : List Char) :
    ofChars (c :: cs) = String.utf8EncodeChar c ++ ofChars cs := rfl

theorem runes_ofChars_append (cs : List Char) (t : Text) :
    runes (ofChars cs ++ t) = cs.map .char ++ t.runes := by
  induction cs with
  | nil => rfl
  | cons c cs ih => rw [ofChars_cons, List.append_assoc, runes_char_append, ih]; rfl

theorem runes_ofChars (cs : List Char) : (ofChars cs).runes = cs.map .char := by
  simpa [runes, runesFrom] using runes_ofChars_append cs []

/-- A text is well-formed UTF-8 exactly if it is made of characters. -/
theorem isUtf8_iff {t : Text} : t.isUtf8 = true ↔ ∃ cs, t = ofChars cs := by
  constructor
  · intro utf8
    rw [← flatMap_encode_runes t]
    rw [isUtf8] at utf8
    generalize t.runes = rs at utf8 ⊢
    induction rs with
    | nil => exact ⟨[], rfl⟩
    | cons r rs ih =>
      rw [List.all_cons, Bool.and_eq_true] at utf8
      obtain ⟨cs, rest⟩ := ih utf8.2
      cases r with
      | stray b => exact absurd utf8.1 Bool.false_ne_true
      | char c => exact ⟨c :: cs, by rw [List.flatMap_cons, rest]; rfl⟩
  · rintro ⟨cs, rfl⟩
    rw [isUtf8, runes_ofChars, List.all_map]
    simp

/-! ## Words -/

/-- The text is empty or starts with whitespace. -/
def StartsBlank (t : Text) : Prop :=
  t = [] ∨ ∃ (c : Char) (rest : Text), (Rune.char c).isSpace = true ∧
    t = String.utf8EncodeChar c ++ rest

/-- Whitespace at the front of a text belongs to no word. -/
theorem fields_char_append {c : Char} (blank : (Rune.char c).isSpace = true) (t : Text) :
    fields (String.utf8EncodeChar c ++ t) = t.fields := by
  rw [fields, fields, runes_char_append]
  simp [openField, blank]

theorem fields_space_append (t : Text) : fields (space ++ t) = t.fields :=
  fields_char_append (c := ' ') rfl t

/-- No word is open in front of whitespace. -/
theorem openField_of_startsBlank {t : Text} (blank : t.StartsBlank) :
    openField t.runes = ([], t.fields) := by
  rcases blank with rfl | ⟨c, rest, blank, rfl⟩
  · rfl
  · rw [fields_char_append blank, runes_char_append, fields]
    simp [openField, blank]

/-- Characters that are not whitespace belong to the word that is open behind them. -/
theorem openField_chars_append {cs : List Char} (solid : ∀ c ∈ cs, (Rune.char c).isSpace = false)
    (rs : List Rune) :
    openField (cs.map .char ++ rs) = (ofChars cs ++ (openField rs).1, (openField rs).2) := by
  induction cs with
  | nil => rfl
  | cons c cs ih =>
    have front : (Rune.char c).isSpace = false := solid c List.mem_cons_self
    have rest := ih fun d member => solid d (List.mem_cons_of_mem c member)
    rw [List.map_cons, List.cons_append, openField, rest]
    simp [front, Rune.encode]

/-- A word in front of whitespace is the first of the words. -/
theorem fields_chars_append {cs : List Char} (nonempty : cs ≠ [])
    (solid : ∀ c ∈ cs, (Rune.char c).isSpace = false) {t : Text} (blank : t.StartsBlank) :
    fields (ofChars cs ++ t) = ofChars cs :: t.fields := by
  have word : (ofChars cs).isEmpty = false := by
    cases cs with
    | nil => exact absurd rfl nonempty
    | cons c cs => simp [ofChars, String.utf8EncodeChar_ne_nil]
  have cut : openField (ofChars cs ++ t).runes = (ofChars cs, t.fields) := by
    rw [runes_ofChars_append, openField_chars_append solid, openField_of_startsBlank blank,
      List.append_nil]
  rw [fields, cut]
  simp [word]

end Text

/-! ## Delimiters -/

variable {delimiters : List Text}

/-- Every delimiter is a single character. -/
def SingleCharacters (delimiters : List Text) : Prop :=
  ∀ d ∈ delimiters, ∃ c : Char, d = String.utf8EncodeChar c

/-- A character stands at the front of a text only if the text starts with it. -/
theorem isSome_after?_char {c d : Char} {t : Text} :
    (Text.after? (String.utf8EncodeChar d) (String.utf8EncodeChar c ++ t)).isSome = true ↔
      d = c := by
  constructor
  · intro found
    obtain ⟨rest, found⟩ := Option.isSome_iff_exists.1 found
    have same := congrArg Text.runes (Text.after?_eq_some_iff.1 found)
    rw [Text.runes_char_append, Text.runes_char_append] at same
    exact (Rune.char.inj (List.cons.inj same).1).symm
  · rintro rfl
    rw [Text.after?_append]
    rfl

/-- No character starts at a byte that continues one. -/
theorem after?_continuation {b : UInt8} (continues : Text.IsContinuation b) (c : Char) (t : Text) :
    Text.after? (String.utf8EncodeChar c) (b :: t) = none := by
  obtain ⟨lead, tail, encodes⟩ := Text.exists_encodes c
  have differ : lead ≠ b := fun same => encodes.starts (same ▸ continues)
  rw [encodes.bytes, Text.after?, if_neg differ]

theorem hasInfix_continuations_append {a : Text} (continues : ∀ b ∈ a, Text.IsContinuation b)
    (c : Char) (t : Text) :
    Text.hasInfix (String.utf8EncodeChar c) (a ++ t) =
      Text.hasInfix (String.utf8EncodeChar c) t := by
  induction a with
  | nil => rfl
  | cons b a ih =>
    rw [List.cons_append, Text.hasInfix, after?_continuation (continues b List.mem_cons_self)]
    exact ih fun e member => continues e (List.mem_cons_of_mem b member)

/-- A character stands somewhere in a text exactly if it is one of its characters. -/
theorem hasInfix_ofChars {c : Char} {cs : List Char} :
    Text.hasInfix (String.utf8EncodeChar c) (Text.ofChars cs) = true ↔ c ∈ cs := by
  induction cs with
  | nil => simp [Text.ofChars, Text.hasInfix, String.utf8EncodeChar_ne_nil]
  | cons d cs ih =>
    obtain ⟨lead, tail, encodes⟩ := Text.exists_encodes d
    -- it stands at the lead byte of `d` or not before the next character
    have front := isSome_after?_char (c := d) (d := c) (t := Text.ofChars cs)
    rw [encodes.bytes, List.cons_append] at front
    rw [Text.ofChars_cons, encodes.bytes, List.cons_append, Text.hasInfix, Bool.or_eq_true, front,
      hasInfix_continuations_append encodes.continues, ih, List.mem_cons]

theorem leadingDelimiter?_continuation (single : SingleCharacters delimiters) {b : UInt8}
    (continues : Text.IsContinuation b) (t : Text) :
    leadingDelimiter? delimiters (b :: t) = none := by
  rw [leadingDelimiter?, List.find?_eq_none]
  intro d member
  obtain ⟨c, rfl⟩ := single d member
  simp [after?_continuation continues]

/-- The delimiter at the front of a text is its first character. -/
theorem leadingDelimiter?_char (single : SingleCharacters delimiters) (c : Char) (t : Text) :
    leadingDelimiter? delimiters (String.utf8EncodeChar c ++ t) =
      if String.utf8EncodeChar c ∈ delimiters then some (String.utf8EncodeChar c) else none := by
  cases found : leadingDelimiter? delimiters (String.utf8EncodeChar c ++ t) with
  | none =>
    have absent : String.utf8EncodeChar c ∉ delimiters := by
      intro member
      have skipped := List.find?_eq_none.1 found _ member
      simp [String.utf8EncodeChar_ne_nil] at skipped
    rw [if_neg absent]
  | some d =>
    have member : d ∈ delimiters := List.mem_of_find?_eq_some found
    obtain ⟨e, rfl⟩ := single d member
    have stands := List.find?_some found
    rw [Bool.and_eq_true] at stands
    obtain rfl := isSome_after?_char.1 stands.2
    rw [if_pos member]

theorem any_isEmpty_eq_false (single : SingleCharacters delimiters) :
    delimiters.any List.isEmpty = false := by
  rw [List.any_eq_false]
  intro d member
  obtain ⟨c, rfl⟩ := single d member
  simp [String.utf8EncodeChar_ne_nil]

theorem setOffFrom_length_append (a t : Text) :
    setOffFrom delimiters a.length (a ++ t) = setOffFrom delimiters 0 t := by
  induction a with
  | nil => rfl
  | cons b a ih => exact ih

/-- Bytes that continue a character stay as they are. -/
theorem setOff_continuations_append (single : SingleCharacters delimiters) {a : Text}
    (continues : ∀ b ∈ a, Text.IsContinuation b) (t : Text) :
    setOff delimiters (a ++ t) = a ++ setOff delimiters t := by
  induction a with
  | nil => rfl
  | cons b a ih =>
    have rest := ih fun e member => continues e (List.mem_cons_of_mem b member)
    have front := leadingDelimiter?_continuation single (continues b List.mem_cons_self) (a ++ t)
    rw [setOff, List.cons_append, setOffFrom, front]
    simp only [any_isEmpty_eq_false single, Bool.false_eq_true, if_false, List.nil_append]
    exact congrArg (b :: ·) rest

/-- Characters are set off one by one. -/
theorem setOff_char_append (single : SingleCharacters delimiters) (c : Char) (t : Text) :
    setOff delimiters (String.utf8EncodeChar c ++ t) =
      if String.utf8EncodeChar c ∈ delimiters then
        Text.space ++ (String.utf8EncodeChar c ++ (Text.space ++ setOff delimiters t))
      else String.utf8EncodeChar c ++ setOff delimiters t := by
  have front := leadingDelimiter?_char single c t
  obtain ⟨lead, tail, encodes⟩ := Text.exists_encodes c
  rw [encodes.bytes] at front ⊢
  rw [setOff, List.cons_append, setOffFrom, ← List.cons_append, front]
  -- a delimiter is skipped as a whole; of any other character the first byte is copied, and
  -- no delimiter starts at the bytes behind it
  by_cases member : lead :: tail ∈ delimiters
  · simp only [if_pos member, List.length_cons, Nat.add_sub_cancel, setOffFrom_length_append,
      List.append_assoc]
    rfl
  · simp only [if_neg member, any_isEmpty_eq_false single, Bool.false_eq_true, if_false,
      List.nil_append]
    exact congrArg (lead :: ·) (setOff_continuations_append single encodes.continues t)

/-- Characters that are no delimiters stay as they are. -/
theorem setOff_chars_append (single : SingleCharacters delimiters) {cs : List Char}
    (plain : ∀ c ∈ cs, String.utf8EncodeChar c ∉ delimiters) (t : Text) :
    setOff delimiters (Text.ofChars cs ++ t) = Text.ofChars cs ++ setOff delimiters t := by
  induction cs with
  | nil => rfl
  | cons c cs ih =>
    have rest := ih fun d member => plain d (List.mem_cons_of_mem c member)
    rw [Text.ofChars_cons, List.append_assoc, setOff_char_append single,
      if_neg (plain c List.mem_cons_self), rest, List.append_assoc]

/-! ## Tokens -/

/-- Every delimiter is a single character, and none is whitespace. -/
structure Vocabulary.CharacterDelimited (v : Vocabulary) : Prop where
  single : SingleCharacters v.delimiters
  solid : ∀ d ∈ v.delimiters, d.hasSpace = false

/-- A text that a program can hold as one token beside the delimiters. -/
structure Vocabulary.IsWord (v : Vocabulary) (t : Text) : Prop where
  nonempty : t ≠ []
  utf8 : t.isUtf8 = true
  solid : t.hasSpace = false
  plain : ∀ d ∈ v.delimiters, Text.hasInfix d t = false

/-- A token ends where the text does, at a space or at a delimiter. -/
def Vocabulary.EndsToken (v : Vocabulary) (t : Text) : Prop :=
  t = [] ∨ ∃ rest, t = Text.space ++ rest ∨ ∃ d ∈ v.delimiters, t = d ++ rest

variable {v : Vocabulary}

theorem hasSpace_ofChars {cs : List Char} :
    (Text.ofChars cs).hasSpace = false ↔ ∀ c ∈ cs, (Rune.char c).isSpace = false := by
  rw [Text.hasSpace, Text.runes_ofChars, List.any_map, List.any_eq_false]
  simp

/-- Setting the delimiters off adds no whitespace in front of a space. -/
theorem setOff_space_append (delimited : v.CharacterDelimited) (t : Text) :
    setOff v.delimiters (Text.space ++ t) = Text.space ++ setOff v.delimiters t := by
  have absent : String.utf8EncodeChar ' ' ∉ v.delimiters := fun member =>
    absurd (delimited.solid _ member) (by decide)
  exact (setOff_char_append delimited.single ' ' t).trans (if_neg absent)

theorem setOff_delimiter_append (delimited : v.CharacterDelimited) {d : Text}
    (member : d ∈ v.delimiters) (t : Text) :
    setOff v.delimiters (d ++ t) =
      Text.space ++ (d ++ (Text.space ++ setOff v.delimiters t)) := by
  obtain ⟨c, rfl⟩ := delimited.single d member
  exact (setOff_char_append delimited.single c t).trans (if_pos member)

theorem startsBlank_space_append (t : Text) : (Text.space ++ t).StartsBlank :=
  Or.inr ⟨' ', t, rfl, rfl⟩

theorem startsBlank_setOff (delimited : v.CharacterDelimited) {t : Text} (ends : v.EndsToken t) :
    (setOff v.delimiters t).StartsBlank := by
  rcases ends with rfl | ⟨rest, rfl | ⟨d, member, rfl⟩⟩
  · exact Or.inl rfl
  · rw [setOff_space_append delimited]
    exact startsBlank_space_append _
  · rw [setOff_delimiter_append delimited member]
    exact startsBlank_space_append _

/-- A space is no part of a token. -/
theorem tokenize_space_append (delimited : v.CharacterDelimited) (t : Text) :
    tokenize v (Text.space ++ t) = tokenize v t := by
  rw [tokenize, setOff_space_append delimited, Text.fields_space_append, tokenize]

/-- A delimiter is a token, whatever follows it. -/
theorem tokenize_delimiter_append (delimited : v.CharacterDelimited) {d : Text}
    (member : d ∈ v.delimiters) (t : Text) : tokenize v (d ++ t) = d :: tokenize v t := by
  obtain ⟨c, rfl⟩ := delimited.single d member
  have encoded : String.utf8EncodeChar c = Text.ofChars [c] := by simp [Text.ofChars]
  have solid := delimited.solid _ member
  rw [encoded] at solid
  rw [tokenize, setOff_delimiter_append delimited member, Text.fields_space_append, encoded,
    Text.fields_chars_append (List.cons_ne_nil c []) (hasSpace_ofChars.1 solid)
      (startsBlank_space_append _),
    Text.fields_space_append, tokenize]

/-- A word is a token when it ends there. -/
theorem tokenize_word_append (delimited : v.CharacterDelimited) {w t : Text} (word : v.IsWord w)
    (ends : v.EndsToken t) : tokenize v (w ++ t) = w :: tokenize v t := by
  obtain ⟨cs, rfl⟩ := Text.isUtf8_iff.1 word.utf8
  have plain : ∀ c ∈ cs, String.utf8EncodeChar c ∉ v.delimiters := fun c member delimiter =>
    Bool.false_ne_true ((word.plain _ delimiter).symm.trans (hasInfix_ofChars.2 member))
  have nonempty : cs ≠ [] := by
    rintro rfl
    exact word.nonempty rfl
  rw [tokenize, setOff_chars_append delimited.single plain,
    Text.fields_chars_append nonempty (hasSpace_ofChars.1 word.solid)
      (startsBlank_setOff delimited ends), tokenize]

end Argot
