import Mathlib.Data.List.Induction
import Argot.Number.Format
import Argot.Proofs.Lexing
import Argot.Proofs.Rounding

set_option autoImplicit false

/-!
# The text of a number is read back

A finite number is written as digits around a point, with or without an exponent; how the
point and the zeros are placed depends on the layout.  `Digits.Spelled` says what all
layouts have in common, and everything else is proved of it: what is spelled starts with
a digit, uses few characters, and is read as a decimal that rounds to the same number.

The result is `Binary64.parse?_text`: reading the text of any number gives that number
back bit for bit, except that all words that are not numbers become one.
-/

namespace Argot

namespace Numeral

/-! ## Digits -/

theorem toNat_of_isDigit {c : Char} (digit : c.isDigit = true) : 48 ≤ c.toNat ∧ c.toNat ≤ 57 := by
  simpa [Char.isDigit, UInt32.le_iff_toNat_le] using digit

theorem isDigit_replicate {k : Nat} : ∀ c ∈ List.replicate k '0', c.isDigit = true := by
  intro c member
  rw [List.eq_of_mem_replicate member]
  rfl

/-- The value of a digit character. -/
def digitValue (c : Char) : Nat := c.toNat - '0'.toNat

theorem digit?_byte {c : Char} (digit : c.isDigit = true) :
    digit? (Text.byte c) = some (digitValue c) := by
  obtain ⟨low, high⟩ := toNat_of_isDigit digit
  have value : (Text.byte c).toNat = c.toNat :=
    UInt8.toNat_ofNat_of_lt' (show c.toNat < 256 by omega)
  have range : 0x30 ≤ Text.byte c ∧ Text.byte c ≤ 0x39 := by
    simp only [UInt8.le_iff_toNat_le, value]
    exact ⟨low, high⟩
  rw [digit?, if_pos range, value]
  rfl

theorem ofDigits_map_digitValue (cs : List Char) :
    ofDigits 10 (cs.map digitValue) = Nat.ofDigitChars 10 cs 0 := by
  simp only [ofDigits, Nat.ofDigitChars, List.foldl_map, digitValue, Nat.mul_comm]

/-- The digits at the front are taken, up to what is no digit. -/
theorem takeDigits_append {cs : List Char} (digits : ∀ c ∈ cs, c.isDigit = true) {rest : Text}
    (stops : ∀ b ∈ rest.head?, digit? b = none) :
    takeDigits digit? (Text.ofAscii cs ++ rest) = (cs.map digitValue, rest) := by
  induction cs with
  | nil =>
    cases rest with
    | nil => rfl
    | cons b rest => simp [Text.ofAscii, takeDigits, stops b rfl]
  | cons c cs ih =>
    have front := digit?_byte (digits c List.mem_cons_self)
    have behind := ih fun d member => digits d (List.mem_cons_of_mem c member)
    simp only [Text.ofAscii, List.map_cons, List.cons_append, takeDigits, front] at behind ⊢
    rw [behind]

/-- Digits around a point, or without a point when none follow it. -/
def pointed (whole fraction : List Char) : List Char :=
  if fraction.isEmpty then whole else whole ++ '.' :: fraction

theorem takeMantissa_pointed {whole fraction : List Char}
    (digits : ∀ c ∈ whole ++ fraction, c.isDigit = true) {rest : Text}
    (stops : rest = [] ∨ ∃ t, rest = Text.byte 'e' :: t) :
    takeMantissa digit? (Text.ofAscii (pointed whole fraction) ++ rest) =
      ((whole ++ fraction).map digitValue, fraction.length, rest) := by
  have ends : ∀ b ∈ rest.head?, digit? b = none := by
    rcases stops with rfl | ⟨t, rfl⟩
    · simp
    · intro b head
      cases head
      rfl
  have left : ∀ c ∈ whole, c.isDigit = true := fun c member =>
    digits c (List.mem_append_left fraction member)
  cases fraction with
  | nil =>
    simp only [pointed, List.isEmpty_nil, if_true, takeMantissa, takeDigits_append left ends,
      List.append_nil, List.length_nil]
    rcases stops with rfl | ⟨t, rfl⟩
    · rfl
    · rfl
  | cons d ds =>
    have right : ∀ c ∈ d :: ds, c.isDigit = true := fun c member =>
      digits c (List.mem_append_right whole member)
    have split : Text.ofAscii (pointed whole (d :: ds)) ++ rest =
        Text.ofAscii whole ++ (Text.byte '.' :: (Text.ofAscii (d :: ds) ++ rest)) := by
      simp [pointed, Text.ofAscii]
    have point : ∀ b ∈ (Text.byte '.' :: (Text.ofAscii (d :: ds) ++ rest)).head?,
        digit? b = none := by
      intro b head
      cases head
      rfl
    rw [split, takeMantissa, takeDigits_append left point]
    simp only [if_true, takeDigits_append right ends, List.map_append, List.length_map]

/-! ## Exponents -/

/-- Below ten thousand an exponent is read in full. -/
theorem exponentOfDigits_eq {ds : List Nat} (small : ofDigits 10 ds < 10000) :
    exponentOfDigits ds = ofDigits 10 ds := by
  induction ds using List.reverseRecOn with
  | nil => rfl
  | append_singleton ds d ih =>
    have last : ofDigits 10 (ds ++ [d]) = ofDigits 10 ds * 10 + d := by simp [ofDigits]
    rw [last] at small ⊢
    -- the digits before the last one spell less, so the exponent has not stopped growing
    have before := ih (by omega)
    rw [exponentOfDigits, List.foldl_append, ← exponentOfDigits, before]
    simp only [List.foldl_cons, List.foldl_nil]
    rw [if_pos (by omega)]

/-- The digits of a number, with zeros in front of them. -/
theorem ofDigitChars_padded (k n : Nat) :
    Nat.ofDigitChars 10 (List.replicate k '0' ++ Nat.toDigits 10 n) 0 = n := by
  rw [Nat.ofDigitChars_append, Nat.ofDigitChars_replicate_zero, Nat.mul_zero,
    Nat.ofDigitChars_ten_toDigits]

theorem isDigit_padded {k n : Nat} :
    ∀ c ∈ List.replicate k '0' ++ Nat.toDigits 10 n, c.isDigit = true := by
  intro c member
  rcases List.mem_append.1 member with zero | digit
  · exact isDigit_replicate c zero
  · exact Nat.isDigit_of_mem_toDigits (by decide) (by decide) digit

theorem exponent?_of_digits {t : Text} (sign : Option Bool) {cs : List Char} (nonempty : cs ≠ [])
    (digits : ∀ c ∈ cs, c.isDigit = true) (split : splitSign t = (sign, Text.ofAscii cs))
    (small : Nat.ofDigitChars 10 cs 0 < 10000) :
    exponent? t =
      some (if sign = some true then -(Nat.ofDigitChars 10 cs 0 : Int)
        else Nat.ofDigitChars 10 cs 0) := by
  rw [← ofDigits_map_digitValue] at small ⊢
  have taken : takeDigits digit? (Text.ofAscii cs ++ []) = _ := takeDigits_append digits (by simp)
  rw [List.append_nil] at taken
  rw [exponent?, split]
  cases cs with
  | nil => exact absurd rfl nonempty
  | cons c cs =>
    simp only [taken, List.map_cons]
    rw [← List.map_cons, exponentOfDigits_eq small]

/-- An exponent is read back. -/
theorem exponent?_exponentText {e : Int} (small : e.natAbs < 10000) :
    exponent? (Text.ofAscii (Digits.exponentText e)) = some e := by
  rw [Digits.exponentText]
  generalize 2 - (Nat.toDigits 10 e.natAbs).length = k
  have value := ofDigitChars_padded k e.natAbs
  have digits := isDigit_padded (k := k) (n := e.natAbs)
  have nonempty : List.replicate k '0' ++ Nat.toDigits 10 e.natAbs ≠ [] := by simp
  by_cases negative : e < 0
  · rw [if_pos negative, exponent?_of_digits (some true) nonempty digits rfl (by omega), value,
      if_pos rfl]
    congr 1
    omega
  · rw [if_neg negative, exponent?_of_digits (some false) nonempty digits rfl (by omega), value,
      if_neg (by decide)]
    congr 1
    omega

/-! ## Decimals -/

theorem decimal?_pointed (negative : Bool) {whole fraction : List Char} (nonempty : whole ≠ [])
    (digits : ∀ c ∈ whole ++ fraction, c.isDigit = true) :
    decimal? negative (Text.ofAscii (pointed whole fraction)) =
      some (.decimal negative
        ⟨Nat.ofDigitChars 10 (whole ++ fraction) 0, -(fraction.length : Int)⟩) := by
  have taken := takeMantissa_pointed digits (Or.inl rfl)
  rw [List.append_nil] at taken
  rw [← ofDigits_map_digitValue, decimal?, taken]
  cases whole with
  | nil => exact absurd rfl nonempty
  | cons c cs => rfl

theorem decimal?_pointed_exponent (negative : Bool) {whole fraction : List Char}
    (nonempty : whole ≠ []) (digits : ∀ c ∈ whole ++ fraction, c.isDigit = true) {e : Int}
    (small : e.natAbs < 10000) :
    decimal? negative (Text.ofAscii (pointed whole fraction ++ 'e' :: Digits.exponentText e)) =
      some (.decimal negative
        ⟨Nat.ofDigitChars 10 (whole ++ fraction) 0, e - fraction.length⟩) := by
  have split : Text.ofAscii (pointed whole fraction ++ 'e' :: Digits.exponentText e) =
      Text.ofAscii (pointed whole fraction) ++
        Text.byte 'e' :: Text.ofAscii (Digits.exponentText e) := by
    simp [Text.ofAscii]
  have taken := takeMantissa_pointed digits (Or.inr ⟨Text.ofAscii (Digits.exponentText e), rfl⟩)
  have mark : lower (Text.byte 'e') = Text.byte 'e' := rfl
  rw [← ofDigits_map_digitValue, split, decimal?, taken]
  cases whole with
  | nil => exact absurd rfl nonempty
  | cons c cs =>
    simp only [List.cons_append, List.map_cons, if_pos mark, exponent?_exponentText small,
      Option.map_some]

end Numeral

/-! ## Layouts -/

namespace Digits

open Numeral (pointed decimal? isDigit_replicate)

/-- There is a digit, and there is nothing else. -/
structure WellFormed (ds : Digits) : Prop where
  nonempty : ds.digits ≠ []
  digits : ∀ c ∈ ds.digits, c.isDigit = true

/-- The decimal that the digits stand for. -/
def decimal (ds : Digits) : Decimal :=
  ⟨Nat.ofDigitChars 10 ds.digits 0, ds.exponent + 1 - ds.digits.length⟩

/-- The characters spell what the digits stand for, with or without an exponent. -/
inductive Spelled (ds : Digits) : List Char → Prop where
  | plain {whole fraction : List Char} (nonempty : whole ≠ [])
      (digits : ∀ c ∈ whole ++ fraction, c.isDigit = true)
      (value : Decimal.magnitude ⟨Nat.ofDigitChars 10 (whole ++ fraction) 0, -fraction.length⟩ =
        ds.decimal.magnitude) :
      Spelled ds (pointed whole fraction)
  | exponent {whole fraction : List Char} (nonempty : whole ≠ [])
      (digits : ∀ c ∈ whole ++ fraction, c.isDigit = true)
      (value : Decimal.magnitude
          ⟨Nat.ofDigitChars 10 (whole ++ fraction) 0, ds.exponent - fraction.length⟩ =
        ds.decimal.magnitude) :
      Spelled ds (pointed whole fraction ++ 'e' :: exponentText ds.exponent)

theorem spelled_scientific {ds : Digits} (wellFormed : ds.WellFormed) :
    Spelled ds ds.scientific := by
  obtain ⟨digits, e⟩ := ds
  obtain ⟨nonempty, isDigit⟩ := wellFormed
  cases digits with
  | nil => exact absurd rfl nonempty
  | cons d rest =>
    have layout : scientific ⟨d :: rest, e⟩ = pointed [d] rest ++ 'e' :: exponentText e := by
      cases rest with
      | nil => rfl
      | cons c rest => rfl
    have exponent : e - rest.length = e + 1 - (d :: rest).length := by
      rw [List.length_cons]
      omega
    rw [layout]
    refine .exponent (List.cons_ne_nil d []) isDigit ?_
    rw [exponent]
    rfl

/-- A number below one: zeros stand between the point and the digits. -/
theorem spelled_positional_small {digits : List Char} {n : Nat}
    (wellFormed : WellFormed ⟨digits, .negSucc n⟩) :
    Spelled ⟨digits, .negSucc n⟩ (positional ⟨digits, .negSucc n⟩) := by
  obtain ⟨nonempty, isDigit⟩ := wellFormed
  have layout : positional ⟨digits, .negSucc n⟩ =
      pointed ['0'] (List.replicate n '0' ++ digits) := by
    cases digits with
    | nil => exact absurd rfl nonempty
    | cons d rest => simp [positional, pointed]
  have coefficient : Nat.ofDigitChars 10 (['0'] ++ (List.replicate n '0' ++ digits)) 0 =
      Nat.ofDigitChars 10 digits 0 := by
    rw [Nat.ofDigitChars_append, Nat.ofDigitChars_append, Nat.ofDigitChars_replicate_zero]
    simp [Nat.ofDigitChars_cons]
  have exponent : -((List.replicate n '0' ++ digits).length : Int) =
      Int.negSucc n + 1 - digits.length := by
    rw [List.length_append, List.length_replicate]
    omega
  rw [layout]
  refine .plain (List.cons_ne_nil '0' []) ?_ ?_
  · intro c member
    simp only [List.mem_append] at member
    rcases member with zero | zero | digit
    · exact isDigit_replicate (k := 1) c zero
    · exact isDigit_replicate c zero
    · exact isDigit c digit
  · rw [coefficient, exponent]
    rfl

/-- A number from one on, with digits on both sides of the point. -/
theorem spelled_positional_long {digits : List Char} {n : Nat}
    (wellFormed : WellFormed ⟨digits, .ofNat n⟩) (long : n + 1 < digits.length) :
    Spelled ⟨digits, .ofNat n⟩ (positional ⟨digits, .ofNat n⟩) := by
  have layout : positional ⟨digits, .ofNat n⟩ =
      pointed (digits.take (n + 1)) (digits.drop (n + 1)) := by
    have padding : n + 1 - (digits.take (n + 1)).length = 0 := by
      rw [List.length_take]
      omega
    simp only [positional, pointed, padding, List.replicate_zero, List.append_nil]
  have exponent : -((digits.drop (n + 1)).length : Int) = (n : Int) + 1 - digits.length := by
    rw [List.length_drop]
    omega
  rw [layout]
  refine .plain ?_ ?_ ?_
  · rw [← List.length_pos_iff, List.length_take]
    omega
  · rw [List.take_append_drop]
    exact wellFormed.digits
  · rw [List.take_append_drop, exponent]
    rfl

/-- A number from one on, filled up with zeros to the point. -/
theorem spelled_positional_short {digits : List Char} {n : Nat}
    (wellFormed : WellFormed ⟨digits, .ofNat n⟩) (short : digits.length ≤ n + 1) :
    Spelled ⟨digits, .ofNat n⟩ (positional ⟨digits, .ofNat n⟩) := by
  have layout : positional ⟨digits, .ofNat n⟩ =
      pointed (digits ++ List.replicate (n + 1 - digits.length) '0') [] := by
    have whole : digits.take (n + 1) = digits := List.take_of_length_le short
    have fraction : digits.drop (n + 1) = [] := List.drop_of_length_le short
    simp only [positional, pointed, whole, fraction]
  have exponent : -(([] : List Char).length : Int) + (n + 1 - digits.length : Nat) =
      (n : Int) + 1 - digits.length := by
    rw [List.length_nil]
    omega
  rw [layout]
  refine .plain (List.append_ne_nil_of_left_ne_nil wellFormed.nonempty _) ?_ ?_
  · intro c member
    simp only [List.append_nil, List.mem_append] at member
    rcases member with digit | zero
    · exact wellFormed.digits c digit
    · exact isDigit_replicate c zero
  · rw [List.append_nil, Nat.ofDigitChars_append, Nat.ofDigitChars_replicate_zero, Nat.mul_comm,
      Decimal.magnitude_mul_pow, exponent]
    rfl

/-- Either layout spells what the digits stand for. -/
theorem spelled_render (layout : NumberLayout) {ds : Digits} (wellFormed : ds.WellFormed) :
    Spelled ds (ds.render layout) := by
  unfold render
  split
  · obtain ⟨digits, e⟩ := ds
    cases e with
    | negSucc n => exact spelled_positional_small wellFormed
    | ofNat n =>
      rcases Nat.lt_or_ge (n + 1) digits.length with long | short
      · exact spelled_positional_long wellFormed long
      · exact spelled_positional_short wellFormed short
  · exact spelled_scientific wellFormed

/-- What is spelled is read back, up to the zeros that were added. -/
theorem decimal?_of_spelled (negative : Bool) {ds : Digits} {cs : List Char}
    (spelled : Spelled ds cs) (small : ds.exponent.natAbs < 10000) :
    ∃ d, decimal? negative (Text.ofAscii cs) = some (.decimal negative d) ∧
      d.magnitude = ds.decimal.magnitude := by
  cases spelled with
  | plain nonempty digits value =>
    exact ⟨_, Numeral.decimal?_pointed negative nonempty digits, value⟩
  | exponent nonempty digits value =>
    exact ⟨_, Numeral.decimal?_pointed_exponent negative nonempty digits small, value⟩

/-! ## The digits of a number -/

/-- The digits of a decimal are those of its coefficient, without zeros at the end. -/
theorem ofDecimal_eq (d : Decimal) :
    ∃ (significant : List Char) (k : Nat),
      Nat.toDigits 10 d.coefficient = significant ++ List.replicate k '0' ∧
        ofDecimal d = ⟨if significant.isEmpty then ['0'] else significant,
          d.exponent + (significant.length + k : Nat) - 1⟩ := by
  generalize digits : Nat.toDigits 10 d.coefficient = all
  have zeros : (all.reverse.takeWhile (· == '0')).reverse =
      List.replicate (all.reverse.takeWhile (· == '0')).length '0' := by
    rw [← List.length_reverse]
    apply List.eq_replicate_of_mem
    intro c member
    have zero := List.all_eq_true.1 List.all_takeWhile c (List.mem_reverse.1 member)
    exact beq_iff_eq.1 zero
  have cut : all = (all.reverse.dropWhile (· == '0')).reverse ++
      List.replicate (all.reverse.takeWhile (· == '0')).length '0' := by
    rw [← zeros, ← List.reverse_append, List.takeWhile_append_dropWhile, List.reverse_reverse]
  refine ⟨_, _, cut, ?_⟩
  have length := congrArg List.length cut
  rw [List.length_append, List.length_replicate] at length
  rw [ofDecimal, digits, ← length]

theorem wellFormed_ofDecimal (d : Decimal) : (ofDecimal d).WellFormed := by
  obtain ⟨significant, k, cut, shape⟩ := ofDecimal_eq d
  rw [shape]
  cases significant with
  | nil => exact ⟨List.cons_ne_nil _ _, isDigit_replicate (k := 1)⟩
  | cons c rest =>
    refine ⟨List.cons_ne_nil c rest, fun e member => ?_⟩
    apply Nat.isDigit_of_mem_toDigits (b := 10) (n := d.coefficient) (by decide) (by decide)
    rw [cut]
    exact List.mem_append_left _ member

/-- Cutting off zeros does not change what the digits stand for. -/
theorem magnitude_decimal_ofDecimal (d : Decimal) :
    (ofDecimal d).decimal.magnitude = d.magnitude := by
  obtain ⟨significant, k, cut, shape⟩ := ofDecimal_eq d
  have value : Nat.ofDigitChars 10 significant 0 * 10 ^ k = d.coefficient := by
    rw [← Nat.ofDigitChars_ten_toDigits (n := d.coefficient), cut, Nat.ofDigitChars_append,
      Nat.ofDigitChars_replicate_zero, Nat.mul_comm]
  obtain ⟨c, e⟩ := d
  obtain rfl : _ = c := value
  rw [shape]
  cases significant with
  | nil =>
    rw [Nat.ofDigitChars_nil, Nat.zero_mul, Decimal.magnitude_zero]
    exact Decimal.magnitude_zero _
  | cons first rest =>
    have exponent : e + ((first :: rest).length + k : Nat) - 1 + 1 - (first :: rest).length =
        e + k := by omega
    rw [Decimal.magnitude_mul_pow, ← exponent]
    rfl

end Digits

namespace Binary64

/-- The digits of a finite number stand for that number. -/
theorem digits_spec {m : Nat} (finite : m < infinite) :
    (digits m).WellFormed ∧ (digits m).decimal.magnitude = m ∧
      (digits m).exponent.natAbs < 10000 := by
  unfold digits
  split
  · rename_i zero
    subst zero
    exact ⟨⟨List.cons_ne_nil _ _, Numeral.isDigit_replicate (k := 1)⟩,
      Decimal.magnitude_zero 0, by decide⟩
  · refine ⟨Digits.wellFormed_ofDecimal _, ?_, ?_⟩
    · rw [Digits.magnitude_decimal_ofDecimal, magnitude_shortest finite]
    · have bounds := moderate_shortest finite
      have positive : 0 < Shortest.digitCount (shortest m).coefficient := Nat.length_toDigits_pos
      have exponent : (Digits.ofDecimal (shortest m)).exponent =
          (shortest m).exponent + Shortest.digitCount (shortest m).coefficient - 1 := rfl
      have ⟨digits, low, high⟩ := bounds
      omega

end Binary64

/-! ## Characters -/

/-- The digit characters. -/
def digitCharacters : List Char := ['0', '1', '2', '3', '4', '5', '6', '7', '8', '9']

/-- The characters of a finite number. -/
def finiteCharacters : List Char := digitCharacters ++ ['.', 'e', '+', '-']

/-- The characters that printed numbers use. -/
def numberCharacters : List Char := finiteCharacters ++ ['N', 'a', 'I', 'n', 'f']

/-- The first character is a digit. -/
def StartsWithDigit (cs : List Char) : Prop := ∃ c rest, cs = c :: rest ∧ c ∈ digitCharacters

/-- What has been checked of every character of a list. -/
theorem forall_mem_of_all {cs : List Char} {p : Char → Prop} [DecidablePred p]
    (checked : cs.all (fun c => decide (p c)) = true) : ∀ c ∈ cs, p c := fun c member =>
  of_decide_eq_true (List.all_eq_true.1 checked c member)

theorem mem_digitCharacters {c : Char} (digit : c.isDigit = true) : c ∈ digitCharacters := by
  obtain ⟨low, high⟩ := Numeral.toNat_of_isDigit digit
  have listed : ∀ i : Fin 10, Char.ofNat (48 + i) ∈ digitCharacters := by decide
  have found := listed ⟨c.toNat - 48, by omega⟩
  rwa [show 48 + (c.toNat - 48) = c.toNat by omega, Char.ofNat_toNat] at found

namespace Digits

open Numeral (pointed)

theorem mem_pointed {whole fraction : List Char}
    (digits : ∀ c ∈ whole ++ fraction, c.isDigit = true) :
    ∀ c ∈ pointed whole fraction, c ∈ finiteCharacters := by
  intro c member
  have digit (among : c ∈ whole ++ fraction) : c ∈ finiteCharacters :=
    List.mem_append_left _ (mem_digitCharacters (digits c among))
  unfold pointed at member
  split at member
  · exact digit (List.mem_append_left _ member)
  · rcases List.mem_append.1 member with left | right
    · exact digit (List.mem_append_left _ left)
    · rcases List.mem_cons.1 right with rfl | right
      · decide
      · exact digit (List.mem_append_right _ right)

theorem mem_exponentText {e : Int} : ∀ c ∈ exponentText e, c ∈ finiteCharacters := by
  intro c member
  rcases List.mem_cons.1 member with rfl | digit
  · split <;> decide
  · exact List.mem_append_left _ (mem_digitCharacters (Numeral.isDigit_padded c digit))

theorem startsWithDigit_pointed {whole fraction : List Char} (nonempty : whole ≠ [])
    (digits : ∀ c ∈ whole ++ fraction, c.isDigit = true) :
    StartsWithDigit (pointed whole fraction) := by
  cases whole with
  | nil => exact absurd rfl nonempty
  | cons c rest =>
    have first := mem_digitCharacters (digits c List.mem_cons_self)
    unfold pointed
    split
    · exact ⟨c, rest, rfl, first⟩
    · exact ⟨c, _, rfl, first⟩

/-- What is spelled starts with a digit and uses the characters of finite numbers. -/
theorem Spelled.characters {ds : Digits} {cs : List Char} (spelled : Spelled ds cs) :
    StartsWithDigit cs ∧ ∀ c ∈ cs, c ∈ finiteCharacters := by
  cases spelled with
  | plain nonempty digits => exact ⟨startsWithDigit_pointed nonempty digits, mem_pointed digits⟩
  | exponent nonempty digits =>
    obtain ⟨c, rest, front, first⟩ := startsWithDigit_pointed nonempty digits
    refine ⟨⟨c, _, by rw [front, List.cons_append], first⟩, fun c member => ?_⟩
    rcases List.mem_append.1 member with mantissa | right
    · exact mem_pointed digits c mantissa
    · rcases List.mem_cons.1 right with rfl | exponent
      · decide
      · exact mem_exponentText c exponent

end Digits

/-! ## Reading back -/

namespace Numeral

theorem underscoresSeparate_of_not_mem {isDigit : UInt8 → Bool} {afterDigit : Bool} {t : Text}
    (none : Text.byte '_' ∉ t) : underscoresSeparate isDigit afterDigit t = true := by
  induction t generalizing afterDigit with
  | nil => rfl
  | cons b t ih =>
    have front : b ≠ Text.byte '_' := fun same => none (same ▸ List.mem_cons_self)
    rw [underscoresSeparate, if_neg front]
    exact ih fun member => none (List.mem_cons_of_mem b member)

theorem dropUnderscores_of_not_mem {t : Text} (none : Text.byte '_' ∉ t) :
    dropUnderscores t = t := by
  apply List.filter_eq_self.2
  intro b member
  exact bne_iff_ne.2 fun same => none (same ▸ member)

/-- A digit at the front is no sign. -/
theorem splitSign_of_first {cs : List Char} (first : StartsWithDigit cs) :
    splitSign (Text.ofAscii cs) = (none, Text.ofAscii cs) := by
  have differ : ∀ c ∈ digitCharacters,
      Text.byte c ≠ Text.byte '+' ∧ Text.byte c ≠ Text.byte '-' := forall_mem_of_all (by decide)
  obtain ⟨c, rest, rfl, digit⟩ := first
  obtain ⟨plus, minus⟩ := differ c digit
  rw [Text.ofAscii, List.map_cons, splitSign, if_neg plus, if_neg minus]

/-- A body that starts with a digit is no word. -/
theorem word?_eq_none {t body : Text} {sign : Option Bool} {c : Char} (first : c ∈ digitCharacters)
    (split : splitSign t = (sign, Text.byte c :: body)) : word? t = none := by
  have differ : ∀ c ∈ digitCharacters, lower (Text.byte c) ≠ 0x69 ∧ lower (Text.byte c) ≠ 0x6E :=
    forall_mem_of_all (by decide)
  obtain ⟨i, n⟩ := differ c first
  have inf : (Text.byte c :: body).map lower ≠ Text.ofString "inf" := fun same =>
    i (List.cons.inj same).1
  have infinity : (Text.byte c :: body).map lower ≠ Text.ofString "infinity" := fun same =>
    i (List.cons.inj same).1
  have nan : (Text.byte c :: body).map lower ≠ Text.ofString "nan" := fun same =>
    n (List.cons.inj same).1
  rw [word?, split]
  simp only [inf, infinity, nan, or_self, and_false, if_false]

/-- A text of the characters of finite numbers, after its sign, is read as a decimal. -/
theorem parse?_eq_decimal? {t : Text} {sign : Option Bool} {cs : List Char}
    (first : StartsWithDigit cs) (characters : ∀ c ∈ cs, c ∈ finiteCharacters)
    (split : splitSign t = (sign, Text.ofAscii cs)) :
    parse? t = decimal? (sign = some true) (Text.ofAscii cs) := by
  have other : ∀ c ∈ finiteCharacters,
      lower (Text.byte c) ≠ Text.byte 'x' ∧ Text.byte c ≠ Text.byte '_' :=
    forall_mem_of_all (by decide)
  have plain : Text.byte '_' ∉ Text.ofAscii cs := by
    intro member
    obtain ⟨c, among, same⟩ := List.mem_map.1 member
    exact (other c (characters c among)).2 same
  have unmarked : afterHexMark? (Text.ofAscii cs) = none := by
    obtain ⟨c, rest, rfl, -⟩ := first
    cases rest with
    | nil => rfl
    | cons d rest =>
      have second := characters d (List.mem_cons_of_mem c List.mem_cons_self)
      exact if_neg fun mark => (other d second).1 mark.2
  obtain ⟨c, rest, rfl, digit⟩ := first
  rw [parse?, word?_eq_none digit split, split]
  simp only [unmarked, underscoresSeparate_of_not_mem plain, if_true,
    dropUnderscores_of_not_mem plain]

end Numeral

namespace Binary64

/-- The number itself, but the same word for everything that is not a number. -/
def plain (x : Binary64) : Binary64 := if x.isNaN then nan else x

/-- The three kinds of numbers and their texts. -/
theorem text_cases (x : Binary64) :
    (x.isNaN = true ∧ x.text = Text.ofString "NaN") ∨
      (x.isNaN = false ∧ x.magnitude = infinite ∧
        x.text = Text.ofString (if x.isNegative then "-Inf" else "+Inf")) ∨
      (x.isNaN = false ∧ x.magnitude < infinite ∧
        ∃ cs, Digits.Spelled (digits x.magnitude) cs ∧
          x.text = if x.isNegative then Text.byte '-' :: Text.ofAscii cs else Text.ofAscii cs) := by
  unfold text format
  by_cases missing : x.isNaN = true
  · exact Or.inl ⟨missing, if_pos missing⟩
  · rw [if_neg missing]
    have present := Bool.eq_false_iff.2 missing
    by_cases infinite : x.isInfinite = true
    · rw [if_pos infinite]
      exact Or.inr (Or.inl ⟨present, beq_iff_eq.1 infinite, rfl⟩)
    · rw [if_neg infinite]
      have finite : x.magnitude < Binary64.infinite := by
        have notAbove : ¬ Binary64.infinite < x.magnitude := fun above =>
          missing (decide_eq_true above)
        have notEqual : x.magnitude ≠ Binary64.infinite := fun same =>
          infinite (beq_iff_eq.2 same)
        omega
      exact Or.inr (Or.inr ⟨present, finite, _,
        Digits.spelled_render .general (digits_spec finite).1, rfl⟩)

/-- The text of a number is read back as that number. -/
theorem parse?_text (x : Binary64) :
    ∃ n, Numeral.parse? x.text = some n ∧ n.value = x.plain := by
  have whole := ofMagnitude_isNegative_magnitude x
  rcases text_cases x with ⟨missing, text⟩ | ⟨present, infinite, text⟩ |
    ⟨present, finite, cs, spelled, text⟩
  · refine ⟨.nan, by rw [text]; rfl, ?_⟩
    rw [plain, if_pos missing]
    rfl
  · refine ⟨.infinity x.isNegative, ?_, ?_⟩
    · rw [text]
      cases x.isNegative <;> rfl
    · rw [plain, present, Numeral.value, infinity, ← infinite, whole]
      rfl
  · obtain ⟨-, value, small⟩ := digits_spec finite
    obtain ⟨d, read, same⟩ := Digits.decimal?_of_spelled x.isNegative spelled small
    obtain ⟨first, characters⟩ := spelled.characters
    refine ⟨.decimal x.isNegative d, ?_, ?_⟩
    · rw [text, ← read]
      cases x.isNegative with
      | true =>
        have sign : Numeral.splitSign (Text.byte '-' :: Text.ofAscii cs) =
            (some true, Text.ofAscii cs) := rfl
        exact Numeral.parse?_eq_decimal? first characters sign
      | false =>
        exact Numeral.parse?_eq_decimal? first characters (Numeral.splitSign_of_first first)
    · rw [plain, present, Numeral.value, same, value, whole]
      rfl

/-- The characters of numbers are single bytes. -/
theorem ofAscii_eq_ofChars {cs : List Char} (characters : ∀ c ∈ cs, c ∈ numberCharacters) :
    Text.ofAscii cs = Text.ofChars cs := by
  have single : ∀ c ∈ numberCharacters, String.utf8EncodeChar c = [Text.byte c] :=
    forall_mem_of_all (by decide)
  induction cs with
  | nil => rfl
  | cons c cs ih =>
    have rest := ih fun d member => characters d (List.mem_cons_of_mem c member)
    rw [Text.ofChars_cons, single c (characters c List.mem_cons_self), ← rest]
    rfl

/-- The text of a number uses the characters of numbers only. -/
theorem text_characters (x : Binary64) :
    ∃ cs, cs ≠ [] ∧ (∀ c ∈ cs, c ∈ numberCharacters) ∧ x.text = Text.ofChars cs := by
  suffices ascii : ∃ cs, cs ≠ [] ∧ (∀ c ∈ cs, c ∈ numberCharacters) ∧ x.text = Text.ofAscii cs by
    obtain ⟨cs, nonempty, characters, text⟩ := ascii
    exact ⟨cs, nonempty, characters, text.trans (ofAscii_eq_ofChars characters)⟩
  rcases text_cases x with ⟨-, text⟩ | ⟨-, -, text⟩ | ⟨-, -, cs, spelled, text⟩
  · exact ⟨['N', 'a', 'N'], List.cons_ne_nil _ _, forall_mem_of_all (by decide), text⟩
  · cases negative : x.isNegative with
    | true =>
      exact ⟨['-', 'I', 'n', 'f'], List.cons_ne_nil _ _, forall_mem_of_all (by decide),
        by rw [text, negative]; rfl⟩
    | false =>
      exact ⟨['+', 'I', 'n', 'f'], List.cons_ne_nil _ _, forall_mem_of_all (by decide),
        by rw [text, negative]; rfl⟩
  · obtain ⟨⟨c, rest, front, -⟩, finite⟩ := spelled.characters
    have characters : ∀ c ∈ cs, c ∈ numberCharacters := fun c member =>
      List.mem_append_left _ (finite c member)
    cases negative : x.isNegative with
    | true =>
      refine ⟨'-' :: cs, List.cons_ne_nil _ _, ?_, by rw [text, negative]; rfl⟩
      intro c member
      rcases List.mem_cons.1 member with rfl | member
      · decide
      · exact characters c member
    | false =>
      refine ⟨cs, ?_, characters, by rw [text, negative]; rfl⟩
      rw [front]
      exact List.cons_ne_nil c rest

theorem text_ne_nil (x : Binary64) : x.text ≠ [] := by
  obtain ⟨cs, nonempty, -, text⟩ := x.text_characters
  rw [text]
  cases cs with
  | nil => exact absurd rfl nonempty
  | cons c cs => simp [String.utf8EncodeChar_ne_nil]

theorem hasSpace_text (x : Binary64) : x.text.hasSpace = false := by
  have solid : ∀ c ∈ numberCharacters, (Rune.char c).isSpace = false :=
    forall_mem_of_all (by decide)
  obtain ⟨cs, -, characters, text⟩ := x.text_characters
  rw [text]
  exact hasSpace_ofChars.2 fun c member => solid c (characters c member)

end Binary64
end Argot
