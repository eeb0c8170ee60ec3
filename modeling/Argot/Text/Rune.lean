import Argot.Text.Basic

set_option autoImplicit false

/-!
# The characters of a text

`Text.runes` reads a text from the left as UTF-8.  Where a well-formed sequence
starts, it yields that character; every other byte is yielded alone, as a stray
byte.  No byte is lost: writing the runes out again gives the text
(`Text.flatMap_encode_runes`).

Normative source: SPEC_FULL §4.1 (tokenizer).
-/

namespace Argot

/-- One step of reading a text: a character, or a byte that starts none. -/
inductive Rune where
  | char (c : Char)
  | stray (b : UInt8)
  deriving DecidableEq, Repr, Inhabited

namespace Rune

/-- The bytes a rune was read from. -/
def encode : Rune → Text
  | .char c => String.utf8EncodeChar c
  | .stray b => [b]

/-- The code point of a rune; a stray byte counts as the replacement character. -/
def codePoint : Rune → Nat
  | .char c => c.toNat
  | .stray _ => 0xFFFD

end Rune

namespace Text

/-- The character that the bytes of `seq` encode, when they are exactly its UTF-8
encoding. -/
def sequence? (seq : Text) (n : Nat) : Option Char :=
  if n.isValidChar ∧ String.utf8EncodeChar (Char.ofNat n) = seq then some (Char.ofNat n) else none

/-- The code point that the bytes spell when the marker bits of the lead byte and the
continuation bytes are taken off. -/
def payload (leadMark : Nat) : Text → Nat
  | [] => 0
  | lead :: tail => tail.foldl (fun n b => n * 64 + b.toNat % 64) (lead.toNat - leadMark)

/-- The character that starts the text `b :: t`, with its length in bytes. -/
def leading? (b : UInt8) (t : Text) : Option (Char × Nat) :=
  if b < 0x80 then some (Char.ofNat b.toNat, 1)
  else
    let (width, mark) := if b < 0xE0 then (2, 0xC0) else if b < 0xF0 then (3, 0xE0) else (4, 0xF0)
    let seq := (b :: t).take width
    (sequence? seq (payload mark seq)).map (·, width)

/-- The runes of a text, `skip` bytes after its start. -/
def runesFrom : (skip : Nat) → Text → List Rune
  | _, [] => []
  | skip + 1, _ :: t => runesFrom skip t
  | 0, b :: t =>
    match leading? b t with
    | some (c, width) => .char c :: runesFrom (width - 1) t
    | none => .stray b :: runesFrom 0 t

/-- The runes of a text from left to right. -/
def runes (t : Text) : List Rune := runesFrom 0 t

theorem encode_of_sequence? {seq : Text} {n : Nat} {c : Char} (h : sequence? seq n = some c) :
    String.utf8EncodeChar c = seq := by
  unfold sequence? at h
  split at h
  · rename_i valid
    cases h
    exact valid.2
  · cases h

/-- An ASCII byte encodes itself. -/
theorem utf8EncodeChar_ofNat_of_lt {n : Nat} (h : n < 0x80) :
    String.utf8EncodeChar (Char.ofNat n) = [UInt8.ofNat n] := by
  have valid : n.isValidChar := Or.inl (by omega)
  have val : (Char.ofNat n).val.toNat = n := by
    unfold Char.ofNat
    rw [dif_pos valid]
    rfl
  simp only [String.utf8EncodeChar, val]
  rw [if_pos (by omega)]

/-- The bytes of the leading character are the first bytes of the text. -/
theorem encode_of_leading? {b : UInt8} {t : Text} {c : Char} {width : Nat}
    (h : leading? b t = some (c, width)) :
    String.utf8EncodeChar c = (b :: t).take width ∧ 0 < width := by
  unfold leading? at h
  split at h
  · rename_i small
    simp only [Option.some.injEq, Prod.mk.injEq] at h
    obtain ⟨rfl, rfl⟩ := h
    refine ⟨?_, by omega⟩
    rw [utf8EncodeChar_ofNat_of_lt (by simpa [UInt8.lt_iff_toNat_lt] using small)]
    simp
  · simp only [Option.map_eq_some_iff, Prod.mk.injEq] at h
    obtain ⟨c', found, rfl, rfl⟩ := h
    refine ⟨encode_of_sequence? found, ?_⟩
    split <;> (try split) <;> simp

theorem flatMap_encode_runesFrom (skip : Nat) (t : Text) :
    (runesFrom skip t).flatMap Rune.encode = t.drop skip := by
  induction t generalizing skip with
  | nil => cases skip <;> simp [runesFrom]
  | cons b t ih =>
    cases skip with
    | succ skip => simp [runesFrom, ih]
    | zero =>
      unfold runesFrom
      split
      · rename_i c width found
        obtain ⟨bytes, positive⟩ := encode_of_leading? found
        obtain ⟨w, rfl⟩ : ∃ w, width = w + 1 := ⟨width - 1, by omega⟩
        simp [Rune.encode, ih, bytes]
      · simp [Rune.encode, ih]

/-- Reading a text as runes loses nothing. -/
@[simp] theorem flatMap_encode_runes (t : Text) : t.runes.flatMap Rune.encode = t := by
  simp [runes, flatMap_encode_runesFrom]

/-- Whether the text is well-formed UTF-8. -/
def isUtf8 (t : Text) : Bool := t.runes.all fun
  | .char _ => true
  | .stray _ => false

end Text
end Argot
