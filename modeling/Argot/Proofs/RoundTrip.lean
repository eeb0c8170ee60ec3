import Argot.Proofs.Grammar
import Argot.Proofs.NumberText
import Argot.Proofs.Run
import Argot.Proofs.ValidVocabulary

set_option autoImplicit false

/-!
# Printing and reading back

The printer writes no space around delimiters and one space between the items of a list,
so where a token ends in the text depends on what is written behind it.  `Prints` says of
a writer that its text is cut as intended in front of anything that ends a token, and it
is kept by every constructor of a tree (`prints_word`, `prints_quote`, `prints_items`,
`prints_list`).  The tokens spell the tree in the sense of the grammar, so they are read
back as that tree.

A closure is printed as the form that makes it, and evaluating that form makes it again.
-/

namespace Argot

variable {v : Vocabulary}

/-! ## What can be printed and read back -/

/-- A valid vocabulary in well-formed UTF-8 whose delimiters are single characters that no
number uses, and whose tokens spell no number. -/
structure Vocabulary.Legible (v : Vocabulary) : Prop where
  valid : v.IsValid
  utf8 (role : Role) : (v.token role).isUtf8 = true
  delimiters : ∀ d ∈ v.delimiters, ∃ c : Char, d = String.utf8EncodeChar c ∧ c ∉ numberCharacters
  notNumeral (role : Role) : Numeral.parse? (v.token role) = none

/-- A name that is a token of its own and stands for nothing but a symbol. -/
structure Vocabulary.IsName (v : Vocabulary) (name : Text) : Prop extends v.IsWord name where
  notNumeral : Numeral.parse? name = none
  notTrue : name ≠ v.trueWord
  notFalse : name ≠ v.falseWord

/-- Trees of lists, quotes, truth values, numbers and symbols. -/
inductive Value.Readable (v : Vocabulary) : Value → Prop where
  | list {items : List Value} (readable : ∀ x ∈ items, Readable v x) : Readable v (.list items)
  | quote {x : Value} (readable : Readable v x) : Readable v (.quote x)
  | boolean (b : Bool) : Readable v (.boolean b)
  | number (x : Binary64) : Readable v (.number x)
  | symbol {name : Text} (isName : v.IsName name) : Readable v (.symbol name)

mutual

/-- The tree with one and the same word for all that is not a number. -/
def Value.plain : Value → Value
  | .list items => .list (plainAll items)
  | .quote x => .quote x.plain
  | .number x => .number x.plain
  | x => x

/-- Every item with one and the same word for all that is not a number. -/
def Value.plainAll : List Value → List Value
  | [] => []
  | x :: xs => x.plain :: plainAll xs

end

mutual

/-- Whether something in the tree is not a number. -/
def Value.hasNaN : Value → Bool
  | .list items => someNaN items
  | .quote x => x.hasNaN
  | .number x => x.isNaN
  | _ => false

/-- Whether one of the items holds something that is not a number. -/
def Value.someNaN : List Value → Bool
  | [] => false
  | x :: xs => x.hasNaN || someNaN xs

end

/-! ## Tokens of a legible vocabulary -/

namespace Vocabulary.Legible

theorem characterDelimited (legible : v.Legible) : v.CharacterDelimited where
  single d member := by
    obtain ⟨c, encoded, -⟩ := legible.delimiters d member
    exact ⟨c, encoded⟩
  solid _ member := legible.valid.solid_delimiter member

/-- A token that is no delimiter is a word. -/
theorem isWord_token (legible : v.Legible) (role : Role)
    (other : role ∉ [.listOpen, .listClose, .quoteMark]) : v.IsWord (v.token role) where
  nonempty := legible.valid.nonempty role
  utf8 := legible.utf8 role
  solid := legible.valid.solid role
  plain _ delimiter := legible.valid.not_inside delimiter (v.token_mem_tokens role) fun same =>
    legible.valid.token_not_delimiter other (same ▸ delimiter)

/-- The text of a number is a word. -/
theorem isWord_text (legible : v.Legible) (x : Binary64) : v.IsWord x.text := by
  obtain ⟨cs, -, characters, text⟩ := x.text_characters
  refine ⟨x.text_ne_nil, Text.isUtf8_iff.2 ⟨cs, text⟩, x.hasSpace_text, ?_⟩
  intro d delimiter
  obtain ⟨c, rfl, foreign⟩ := legible.delimiters d delimiter
  rw [text]
  exact Bool.eq_false_iff.2 fun inside => foreign (characters c (hasInfix_ofChars.1 inside))

end Vocabulary.Legible

/-- A word is no delimiter. -/
theorem Vocabulary.IsWord.not_delimiter {w : Text} (word : v.IsWord w) : w ∉ v.delimiters := by
  intro delimiter
  have inside : Text.hasInfix w w = true := Text.hasInfix_iff.2 (List.infix_refl w)
  exact Bool.false_ne_true ((word.plain w delimiter).symm.trans inside)

/-! ## Atoms -/

theorem readAtom_text (x : Binary64) : readAtom v x.text = .number x.plain := by
  obtain ⟨n, read, value⟩ := x.parse?_text
  simp only [readAtom, read, value]

theorem readAtom_name {name : Text} (isName : v.IsName name) : readAtom v name = .symbol name := by
  simp only [readAtom, isName.notNumeral, if_neg isName.notTrue, if_neg isName.notFalse]

theorem readAtom_truth (legible : v.Legible) (b : Bool) :
    readAtom v (if b then v.trueWord else v.falseWord) = .boolean b := by
  cases b with
  | true =>
    have notNumeral : Numeral.parse? v.trueWord = none := legible.notNumeral .trueWord
    simp [readAtom, notNumeral]
  | false =>
    have notNumeral : Numeral.parse? v.falseWord = none := legible.notNumeral .falseWord
    have differ : v.falseWord ≠ v.trueWord := legible.valid.token_ne .falseWord .trueWord (by decide)
    simp [readAtom, notNumeral, differ]

theorem isWord_truth (legible : v.Legible) (b : Bool) :
    v.IsWord (if b then v.trueWord else v.falseWord) := by
  cases b with
  | true => exact legible.isWord_token .trueWord (by decide)
  | false => exact legible.isWord_token .falseWord (by decide)

/-! ## Printing and cutting -/

/-- In front of anything that ends a token, what is written is cut into tokens with the
property. -/
def Prints (v : Vocabulary) (write : Text → Text) (spelled : List Text → Prop) : Prop :=
  ∃ tokens, spelled tokens ∧
    ∀ tail, v.EndsToken tail → tokenize v (write tail) = tokens ++ tokenize v tail

theorem endsToken_space (t : Text) : v.EndsToken (Text.space ++ t) := Or.inr ⟨t, Or.inl rfl⟩

theorem endsToken_close (t : Text) : v.EndsToken (v.listClose ++ t) :=
  Or.inr ⟨t, Or.inr ⟨v.listClose, by simp [Vocabulary.delimiters], rfl⟩⟩

/-- A word is one token, and it is read as an atom. -/
theorem prints_word (legible : v.Legible) {w : Text} (word : v.IsWord w) :
    Prints v (w ++ ·) (Spells v · (readAtom v w)) := by
  have other := word.not_delimiter
  simp only [Vocabulary.delimiters, List.mem_cons, List.not_mem_nil, or_false, not_or] at other
  refine ⟨[w], .atom other.1 other.2.1 other.2.2, fun tail ends => ?_⟩
  exact tokenize_word_append legible.characterDelimited word ends

theorem prints_quote (legible : v.Legible) {x y : Value}
    (inner : Prints v (x.write v) (Spells v · y)) :
    Prints v ((Value.quote x).write v) (Spells v · (.quote y)) := by
  obtain ⟨tokens, spelled, cut⟩ := inner
  refine ⟨v.quoteMark :: tokens, .quote spelled, fun tail ends => ?_⟩
  have delimiter : v.quoteMark ∈ v.delimiters := by simp [Vocabulary.delimiters]
  rw [Value.write, tokenize_delimiter_append legible.characterDelimited delimiter, cut tail ends]
  rfl

/-- Items are cut one by one, at the spaces between them. -/
theorem prints_items (legible : v.Legible) {items : List Value}
    (each : ∀ x ∈ items, Prints v (x.write v) (Spells v · x.plain)) :
    Prints v (Value.writeItems v items) (SpellsAll v · (Value.plainAll items)) := by
  induction items with
  | nil => exact ⟨[], .nil, fun tail _ => by rw [Value.writeItems]; rfl⟩
  | cons x rest ih =>
    obtain ⟨first, spelled, cut⟩ := each x List.mem_cons_self
    obtain ⟨others, spelledAll, cutAll⟩ := ih fun y member => each y (List.mem_cons_of_mem x member)
    refine ⟨first ++ others, .cons spelled spelledAll, fun tail ends => ?_⟩
    -- `tail` itself stands behind the last item, a space behind every other one
    cases rest with
    | nil =>
      cases spelledAll
      rw [Value.writeItems, cut tail ends, List.append_nil]
    | cons y rest =>
      rw [Value.writeItems, cut _ (endsToken_space _),
        tokenize_space_append legible.characterDelimited, cutAll tail ends, List.append_assoc]

theorem prints_list (legible : v.Legible) {items : List Value}
    (inner : Prints v (Value.writeItems v items) (SpellsAll v · (Value.plainAll items))) :
    Prints v ((Value.list items).write v) (Spells v · (Value.list items).plain) := by
  obtain ⟨tokens, spelled, cut⟩ := inner
  refine ⟨v.listOpen :: (tokens ++ [v.listClose]), ?_, fun tail ends => ?_⟩
  · rw [Value.plain]
    exact .list spelled
  · have opens : v.listOpen ∈ v.delimiters := by simp [Vocabulary.delimiters]
    have closes : v.listClose ∈ v.delimiters := by simp [Vocabulary.delimiters]
    have delimited := legible.characterDelimited
    rw [Value.write, tokenize_delimiter_append delimited opens, cut _ (endsToken_close tail),
      tokenize_delimiter_append delimited closes]
    simp

/-- Printing a tree and cutting the text gives tokens that spell the tree. -/
theorem prints_readable (legible : v.Legible) {x : Value} (readable : x.Readable v) :
    Prints v (x.write v) (Spells v · x.plain) := by
  induction readable with
  | list _ each => exact prints_list legible (prints_items legible each)
  | quote _ inner => exact prints_quote legible inner
  | boolean b =>
    have word := prints_word legible (isWord_truth legible b)
    rwa [readAtom_truth legible] at word
  | number x =>
    have word := prints_word legible (legible.isWord_text x)
    rwa [readAtom_text] at word
  | symbol isName =>
    have word := prints_word legible isName.toIsWord
    rwa [readAtom_name isName] at word

/-- A printed tree is read back as that tree. -/
theorem readAll_print (legible : v.Legible) {x : Value} (readable : x.Readable v) :
    readAll v (tokenize v (x.print v)) = [.ok x.plain] := by
  obtain ⟨tokens, spelled, cut⟩ := prints_readable legible readable
  have nothing : tokenize v [] = [] := rfl
  rw [Value.print, cut [] (Or.inl rfl), nothing]
  exact (readAll_eq_map_ok_iff legible.valid.delimitersDiffer).2 (.cons spelled .nil)

/-! ## Trees of numbers only -/

mutual

theorem Value.plain_eq : (x : Value) → x.hasNaN = false → x.plain = x
  | .list items, numbers => by rw [Value.plain, Value.plainAll_eq items numbers]
  | .quote x, numbers => by rw [Value.plain, Value.plain_eq x numbers]
  | .number x, numbers => by
    have number : x.isNaN = false := numbers
    rw [Value.plain, Binary64.plain, number]
    rfl
  | .nil, _ | .symbol _, _ | .boolean _, _ | .string _, _ | .builtin _, _ | .closure _ _ _, _
  | .scopedLet _ _, _ => rfl

theorem Value.plainAll_eq : (items : List Value) → Value.someNaN items = false →
    Value.plainAll items = items
  | [], _ => rfl
  | x :: rest, numbers => by
    obtain ⟨first, others⟩ := Bool.or_eq_false_iff.1 numbers
    rw [Value.plainAll, Value.plain_eq x first, Value.plainAll_eq rest others]

end

theorem Value.equalAll_self {items : List Value} (each : ∀ x ∈ items, x.equal x = true) :
    Value.equalAll items items = true := by
  induction items with
  | nil => rfl
  | cons x rest ih =>
    rw [Value.equalAll, each x List.mem_cons_self]
    exact ih fun y member => each y (List.mem_cons_of_mem x member)

theorem Value.hasNaN_of_mem {items : List Value} (numbers : Value.someNaN items = false) :
    ∀ x ∈ items, x.hasNaN = false := by
  induction items with
  | nil => simp
  | cons y rest ih =>
    obtain ⟨first, others⟩ := Bool.or_eq_false_iff.1 numbers
    intro x member
    rcases List.mem_cons.1 member with rfl | member
    · exact first
    · exact ih others x member

/-- A tree of numbers is equal to itself. -/
theorem Value.Readable.equal_self {x : Value} (readable : x.Readable v)
    (numbers : x.hasNaN = false) : x.equal x = true := by
  induction readable with
  | list _ each =>
    rw [Value.equal]
    exact Value.equalAll_self fun y member => each y member (Value.hasNaN_of_mem numbers y member)
  | quote _ inner =>
    rw [Value.equal]
    exact inner numbers
  | boolean b => rw [Value.equal, beq_self_eq_true]
  | number x =>
    have number : x.isNaN = false := numbers
    rw [Value.equal, Binary64.equals_self, number]
    rfl
  | symbol isName => rw [Value.equal, beq_self_eq_true]

/-! ## Closures -/

/-- The form that a closure is printed as. -/
def Value.abstraction (v : Vocabulary) (params body : Value) : Value :=
  .list [.symbol v.closureForm, params, body]

theorem print_closure (params body : Value) (home : Option Nat) :
    (Value.closure params body home).print v = (Value.abstraction v params body).print v := by
  simp [Value.print, Value.abstraction, Value.write, Value.writeItems]

theorem isName_closureForm (legible : v.Legible) : v.IsName v.closureForm where
  toIsWord := legible.isWord_token .closureForm (by decide)
  notNumeral := legible.notNumeral .closureForm
  notTrue := legible.valid.token_ne .closureForm .trueWord (by decide)
  notFalse := legible.valid.token_ne .closureForm .falseWord (by decide)

theorem readable_abstraction (legible : v.Legible) {params body : Value}
    (readableParams : params.Readable v) (readableBody : body.Readable v) :
    (Value.abstraction v params body).Readable v := by
  refine .list fun x member => ?_
  simp only [List.mem_cons, List.not_mem_nil, or_false] at member
  rcases member with rfl | rfl | rfl
  · exact .symbol (isName_closureForm legible)
  · exact readableParams
  · exact readableBody

/-- Evaluating the form makes a closure of the parts, which are not evaluated. -/
theorem eval_abstraction (r : Rules) (valid : r.vocabulary.IsValid) (params body : Value)
    (fuel scope depth : Nat) (w : World) :
    ∃ home w', eval r (fuel + 1) (Value.abstraction r.vocabulary params body) scope depth w =
      some (.ok (.closure params body home), w') := by
  have form : r.vocabulary.form? r.vocabulary.closureForm = some .abstraction := by
    have differ : r.vocabulary.closureForm ≠ r.vocabulary.letForm :=
      valid.token_ne .closureForm .letForm (by decide)
    rw [Vocabulary.form?, if_neg differ, if_pos rfl]
  rw [Value.abstraction, eval, evalStep, Run.andThen_apply, Run.record_apply]
  simp only [headForm?, form, Option.map_some, evalForm, evalAbstraction, Run.pure_apply]
  exact ⟨_, _, rfl⟩

/-- **Printing then reading is the identity.**  In a legible vocabulary:

* every tree is read back from its text as exactly one form, which is the tree itself with
  its numbers bit for bit, except that all words that are not numbers become one;
* a closure is read back as one list form, and evaluating that form succeeds wherever it is
  done and gives a closure that is equal to the original, whatever scope that one
  remembers. -/
theorem printing_then_reading_is_identity (v : Vocabulary) (legible : v.Legible) :
    (∀ x : Value, x.Readable v →
      readAll v (tokenize v (x.print v)) = [.ok x.plain] ∧ (x.hasNaN = false → x.plain = x)) ∧
    ∀ (params body : Value) (home : Option Nat), params.Readable v → body.Readable v →
      params.hasNaN = false → body.hasNaN = false →
      ∃ items, readAll v (tokenize v ((Value.closure params body home).print v)) =
          [.ok (.list items)] ∧
        ∀ (r : Rules) (fuel scope depth : Nat) (w : World), r.vocabulary = v →
          ∃ params' body' home' w',
            eval r (fuel + 1) (.list items) scope depth w =
              some (.ok (.closure params' body' home'), w') ∧
            (Value.closure params body home).equal (.closure params' body' home') = true := by
  refine ⟨fun x readable => ⟨readAll_print legible readable, x.plain_eq⟩, ?_⟩
  intro params body home readableParams readableBody numbersParams numbersBody
  have read := readAll_print legible (readable_abstraction legible readableParams readableBody)
  have numbers : (Value.abstraction v params body).hasNaN = false := by
    simp [Value.abstraction, Value.hasNaN, Value.someNaN, numbersParams, numbersBody]
  rw [Value.plain_eq _ numbers, ← print_closure params body home] at read
  refine ⟨_, read, ?_⟩
  rintro r fuel scope depth w rfl
  obtain ⟨home', w', closure⟩ := eval_abstraction r legible.valid params body fuel scope depth w
  refine ⟨params, body, home', w', closure, ?_⟩
  rw [Value.equal, readableParams.equal_self numbersParams, readableBody.equal_self numbersBody]
  rfl

/-- In pictures: a tree with a signalling word in it, and a closure over a negative zero. -/
theorem pictures_printed_and_read :
    let tree : Value := .list [.symbol "x", .quote (.list [.number ⟨0x7FF0000000000001⟩])]
    let closure : Value := .closure (.list [.symbol "x"]) (.number (.zero true)) (some 7)
    let rules : Rules := ⟨.pictures, true, false, false, fun _ _ _ => .ok .nil⟩
    Vocabulary.pictures.Legible ∧ tree.Readable .pictures ∧
      readAll .pictures (tokenize .pictures (tree.print .pictures)) =
        [.ok (.list [.symbol "x", .quote (.list [.number .nan])])] ∧
      ∃ items params body home w,
        readAll .pictures (tokenize .pictures (closure.print .pictures)) = [.ok (.list items)] ∧
        eval rules 1 (.list items) 0 0 default = some (.ok (.closure params body home), w) ∧
        closure.equal (.closure params body home) = true := by
  intro tree closure rules
  have legible : Vocabulary.pictures.Legible := by
    refine ⟨by decide, fun role => by cases role <;> rfl, ?_, fun role => by cases role <;> rfl⟩
    intro d delimiter
    simp only [Vocabulary.delimiters, List.mem_cons, List.not_mem_nil, or_false] at delimiter
    rcases delimiter with rfl | rfl | rfl
    · exact ⟨'💖', rfl, by decide⟩
    · exact ⟨'💔', rfl, by decide⟩
    · exact ⟨'😪', rfl, by decide⟩
  have name : (Value.symbol "x").Readable .pictures :=
    .symbol ⟨⟨by decide, by decide, by decide, by decide⟩, by decide, by decide, by decide⟩
  have readable : tree.Readable .pictures :=
    .list (List.forall_mem_cons.2 ⟨name, List.forall_mem_singleton.2
      (.quote (.list (List.forall_mem_singleton.2 (.number _))))⟩)
  obtain ⟨trees, closures⟩ := printing_then_reading_is_identity .pictures legible
  obtain ⟨items, read, evaluates⟩ := closures (.list [.symbol "x"]) (.number (.zero true)) (some 7)
    (.list (List.forall_mem_singleton.2 name)) (.number _) rfl (by decide)
  obtain ⟨params, body, home, w, evaluated, equal⟩ := evaluates rules 0 0 0 default rfl
  exact ⟨legible, readable, (trees tree readable).1,
    items, params, body, home, w, read, evaluated, equal⟩

end Argot
