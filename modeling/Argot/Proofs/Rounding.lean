import Mathlib.Algebra.Group.Nat.Defs
import Argot.Number.Shortest

set_option autoImplicit false

/-!
# Rounding and shortest decimals

Rounding depends on a fraction only, not on how it is written (`Binary64.nearest_mul`),
and a number that can be represented is its own rounding (`Binary64.nearest_quantaOf`).
Hence trailing zeros of a decimal may be moved into its exponent
(`Decimal.magnitude_mul_pow`), and the shortest decimal of a finite number rounds back to
it (`magnitude_shortest`).

The search for a shortest decimal tries candidates that are checked before they are
returned; what remains to be proved is that the decimal it falls back on is exact.
-/

namespace Argot

namespace Binary64

/-! ## Rounding -/

theorem roundDiv_mul (n d : Nat) {k : Nat} (positive : 0 < k) :
    roundDiv (n * k) (d * k) = roundDiv n d := by
  have double : 2 * (n % d * k) = 2 * (n % d) * k := (Nat.mul_assoc ..).symm
  simp only [roundDiv, Nat.mul_div_mul_right n d positive, Nat.mul_mod_mul_right, double,
    Nat.mul_lt_mul_right positive]

/-- Rounding depends on the fraction only, not on how it is written. -/
theorem nearest_mul (n d : Nat) {k : Nat} (positive : 0 < k) :
    nearest (n * k) (d * k) = nearest n d := by
  simp only [nearest, Nat.mul_div_mul_right n d positive, Nat.mul_right_comm d k,
    roundDiv_mul n _ positive]

theorem nearest_eq_of_mul_eq {n d n' d' : Nat} (hd : 0 < d) (hd' : 0 < d')
    (same : n * d' = n' * d) : nearest n d = nearest n' d' := by
  rw [← nearest_mul n d hd', same, Nat.mul_comm d d', nearest_mul n' d' hd]

theorem roundDiv_mul_self (n : Nat) {d : Nat} (positive : 0 < d) : roundDiv (n * d) d = n := by
  simp [roundDiv, Nat.mul_div_cancel n positive, positive]

/-- The quanta of a normal magnitude have the bits of its significand, shifted. -/
theorem log2_mul_pow {s : Nat} (low : 2 ^ 52 ≤ s) (high : s < 2 ^ 53) (p : Nat) :
    (s * 2 ^ p).log2 = 52 + p := by
  have positive : 0 < 2 ^ p := Nat.two_pow_pos p
  have nonzero : s * 2 ^ p ≠ 0 := Nat.mul_ne_zero (by omega) (Nat.ne_of_gt positive)
  rw [Nat.log2_eq_iff nonzero]
  constructor
  · rw [Nat.pow_add]
    exact Nat.mul_le_mul_right (2 ^ p) low
  · rw [Nat.add_right_comm, Nat.pow_add]
    exact Nat.mul_lt_mul_of_pos_right high positive

/-- Rounding a finite magnitude changes nothing. -/
theorem nearest_quantaOf {m : Nat} (finite : m < infinite) : nearest (quantaOf m) 1 = m := by
  have capped : min infinite m = m := Nat.min_eq_right (Nat.le_of_lt finite)
  -- subnormal magnitudes are their own quanta; of the others the exponent is the shift
  by_cases subnormal : m < 0x10000000000000
  · have shift : m.log2 - 52 = 0 := by
      by_cases zero : m = 0
      · rw [zero]
        rfl
      · have below := (Nat.log2_lt zero).2 (show m < 2 ^ 52 from subnormal)
        omega
    have whole : roundDiv m 1 = m := by simpa using roundDiv_mul_self m Nat.one_pos
    simp [nearest, quantaOf, subnormal, shift, whole, capped]
  · have split : (m / 0x10000000000000 - 1) * 0x10000000000000 +
        (0x10000000000000 + m % 0x10000000000000) = m := by omega
    have low : 2 ^ 52 ≤ 0x10000000000000 + m % 0x10000000000000 := Nat.le_add_right _ _
    have high : 0x10000000000000 + m % 0x10000000000000 < 2 ^ 53 := by
      have := Nat.mod_lt m (show 0 < 0x10000000000000 by decide)
      omega
    have quanta : quantaOf m = (0x10000000000000 + m % 0x10000000000000) *
        2 ^ (m / 0x10000000000000 - 1) := if_neg subnormal
    generalize 0x10000000000000 + m % 0x10000000000000 = s at split low high quanta
    generalize m / 0x10000000000000 - 1 = p at split quanta
    have rounded : roundDiv (s * 2 ^ p) (2 ^ p) = s := roundDiv_mul_self s (Nat.two_pow_pos p)
    rw [quanta, nearest, Nat.div_one, log2_mul_pow low high, Nat.add_sub_cancel_left,
      Nat.one_mul, Nat.pow_eq, rounded, split, capped]

theorem nearest_zero {d : Nat} (positive : 0 < d) : nearest 0 d = 0 := by
  have rounded : roundDiv 0 d = 0 := by simpa using roundDiv_mul_self 0 positive
  simp [nearest, rounded, Nat.log2_zero]

end Binary64

/-! ## Decimals -/

namespace Decimal

/-- The fraction that a decimal stands for. -/
theorem magnitude_eq (d : Decimal) :
    d.magnitude =
      Binary64.nearest (d.coefficient * 10 ^ d.exponent.toNat * Binary64.unit)
        (10 ^ (-d.exponent).toNat) := by
  obtain ⟨c, e⟩ := d
  cases e with
  | ofNat e => 
    have none : (-(Int.ofNat e)).toNat = 0 := by simp
    rw [none]
    rfl
  | negSucc e =>
    simp only [magnitude, scaledMagnitude, Int.toNat_negSucc, Int.neg_negSucc, Nat.pow_zero,
      Nat.mul_one]
    rfl

/-- Zeros at the end of the coefficient are part of the exponent. -/
theorem magnitude_mul_pow (c k : Nat) (e : Int) :
    magnitude ⟨c * 10 ^ k, e⟩ = magnitude ⟨c, e + k⟩ := by
  rw [magnitude_eq, magnitude_eq]
  apply Binary64.nearest_eq_of_mul_eq (Nat.pow_pos (by decide)) (Nat.pow_pos (by decide))
  have balance : k + e.toNat + (-(e + k)).toNat = (e + k).toNat + (-e).toNat := by omega
  generalize Binary64.unit = u
  calc c * 10 ^ k * 10 ^ e.toNat * u * 10 ^ (-(e + k)).toNat
      = c * u * (10 ^ k * 10 ^ e.toNat * 10 ^ (-(e + k)).toNat) := by ac_rfl
    _ = c * u * (10 ^ (e + k).toNat * 10 ^ (-e).toNat) := by
        rw [← Nat.pow_add, ← Nat.pow_add, ← Nat.pow_add, balance]
    _ = c * 10 ^ (e + k).toNat * u * 10 ^ (-e).toNat := by ac_rfl

theorem magnitude_zero (e : Int) : magnitude ⟨0, e⟩ = 0 := by
  rw [magnitude_eq]
  simp only [Nat.zero_mul]
  exact Binary64.nearest_zero (Nat.pow_pos (by decide))

end Decimal

/-! ## Shortest decimals -/

namespace Shortest

theorem withDigits?_eq (m count : Nat) :
    withDigits? m count =
      neighbour? m (leadingExponent (Binary64.quantaOf m) - count + 1)
        (inSteps (Binary64.quantaOf m) (leadingExponent (Binary64.quantaOf m) - count + 1)) :=
  rfl

theorem neighbour?_cases {m : Nat} {e : Int} {steps : Nat × Nat} {d : Decimal}
    (found : neighbour? m e steps = some d) :
    d.magnitude = m ∧
      (d = ⟨steps.1 / steps.2, e⟩ ∨ d = ⟨steps.1 / steps.2 + 1, e⟩) := by
  obtain ⟨n, step⟩ := steps
  unfold neighbour? at found
  dsimp only at found
  split at found
  · cases found
  · rename_i low high
    cases found
    exact ⟨beq_iff_eq.1 low, Or.inl rfl⟩
  · rename_i low high
    cases found
    exact ⟨beq_iff_eq.1 high, Or.inr rfl⟩
  · rename_i low high
    split at found
    · cases found
      exact ⟨beq_iff_eq.1 low, Or.inl rfl⟩
    · cases found
      exact ⟨beq_iff_eq.1 high, Or.inr rfl⟩

theorem nearest_mul_five_pow (q k : Nat) :
    Binary64.nearest (q * Nat.pow 5 k * Nat.pow 2 k) (Nat.pow 10 k) = Binary64.nearest q 1 := by
  have tens : (10 : Nat) ^ k = 5 ^ k * 2 ^ k := Nat.mul_pow 5 2 k
  apply Binary64.nearest_eq_of_mul_eq (Nat.pow_pos (by decide)) Nat.one_pos
  simp only [Nat.pow_eq, tens, Nat.mul_one, Nat.mul_assoc]

theorem magnitude_exact {m : Nat} (finite : m < Binary64.infinite) : (exact m).magnitude = m :=
  (nearest_mul_five_pow (Binary64.quantaOf m) 1074).trans (Binary64.nearest_quantaOf finite)

/-! ### How long they get -/

/-- A coarse bound: more digits than any number has, and an exponent that is far from
where the reader of exponents gives up. -/
structure Moderate (d : Decimal) : Prop where
  digits : digitCount d.coefficient ≤ 4000
  low : -4000 ≤ d.exponent
  high : d.exponent ≤ 4000

theorem digitCount_le {n k : Nat} (below : n < 10 ^ k) : digitCount n ≤ k + 1 :=
  (Nat.length_toDigits_le_iff (by decide) (Nat.succ_pos k)).2
    (Nat.lt_of_lt_of_le below (Nat.pow_le_pow_right (by decide) (Nat.le_succ k)))

theorem mul_pow_lt {q k : Nat} (below : q < 10 ^ k) {b j : Nat} (base : b ≤ 10) :
    q * Nat.pow b j < 10 ^ (k + j) := by
  rw [Nat.pow_add]
  exact Nat.mul_lt_mul_of_lt_of_le below (Nat.pow_le_pow_left base j) (Nat.pow_pos (by decide))

theorem quantaOf_lt {m : Nat} (finite : m < Binary64.infinite) :
    ∃ k ≤ 2098, Binary64.quantaOf m < 10 ^ k := by
  have tens (k : Nat) : 2 ^ k ≤ 10 ^ k := Nat.pow_le_pow_left (by decide) k
  by_cases subnormal : m < 0x10000000000000
  · refine ⟨52, by decide, Nat.lt_of_lt_of_le ?_ (tens 52)⟩
    rwa [Binary64.quantaOf, if_pos subnormal]
  · have small : m / 0x10000000000000 - 1 ≤ 2045 := by
      unfold Binary64.infinite at finite
      omega
    have significand : 0x10000000000000 + m % 0x10000000000000 < 10 ^ 53 := by omega
    refine ⟨53 + (m / 0x10000000000000 - 1), by omega, ?_⟩
    rw [Binary64.quantaOf, if_neg subnormal]
    exact mul_pow_lt significand (by decide)

theorem leadingExponent_bounds {q k : Nat} (below : q < 10 ^ k) :
    -400 ≤ leadingExponent q ∧ leadingExponent q ≤ k := by
  have count : digitCount (q * lift / Binary64.unit) ≤ k + 400 + 1 :=
    digitCount_le (Nat.lt_of_le_of_lt (Nat.div_le_self _ _) (mul_pow_lt below (Nat.le_refl 10)))
  have positive : 0 < digitCount (q * lift / Binary64.unit) := Nat.length_toDigits_pos
  rw [leadingExponent]
  omega

theorem inSteps_div_lt {q k : Nat} (below : q < 10 ^ k) {e : Int} {j : Nat} (low : -(j : Int) ≤ e) :
    (inSteps q e).1 / (inSteps q e).2 < 10 ^ (k + j) := by
  refine Nat.lt_of_le_of_lt (Nat.div_le_self _ _) ?_
  cases e with
  | ofNat e => exact Nat.lt_of_lt_of_le below (Nat.pow_le_pow_right (by decide) (by omega))
  | negSucc e =>
    have scaled : q * Nat.pow 10 (e + 1) < 10 ^ (k + (e + 1)) := mul_pow_lt below (Nat.le_refl 10)
    exact Nat.lt_of_lt_of_le scaled (Nat.pow_le_pow_right (by decide) (by omega))

theorem moderate_withDigits? {m count : Nat} (finite : m < Binary64.infinite)
    (few : count ∈ List.range' 1 17) {d : Decimal} (found : withDigits? m count = some d) :
    Moderate d := by
  obtain ⟨k, bound, below⟩ := quantaOf_lt finite
  obtain ⟨least, most⟩ := leadingExponent_bounds below
  rw [List.mem_range'_1] at few
  rw [withDigits?_eq] at found
  generalize leadingExponent (Binary64.quantaOf m) = leading at found least most
  have small := inSteps_div_lt below (show -((416 : Nat) : Int) ≤ leading - count + 1 by omega)
  have positive : 0 < 10 ^ (k + 416) := Nat.pow_pos (by decide)
  obtain ⟨low, high⟩ : d.coefficient < 10 ^ (k + 416 + 1) ∧ d.exponent = leading - count + 1 := by
    rw [Nat.pow_succ]
    rcases (neighbour?_cases found).2 with rfl | rfl
    · exact ⟨by dsimp only; omega, rfl⟩
    · exact ⟨by dsimp only; omega, rfl⟩
  have digits := digitCount_le low
  exact ⟨by omega, by omega, by omega⟩

theorem moderate_exact {m : Nat} (finite : m < Binary64.infinite) : Moderate (exact m) := by
  obtain ⟨k, bound, below⟩ := quantaOf_lt finite
  have digits : digitCount (exact m).coefficient ≤ k + 1074 + 1 :=
    digitCount_le (mul_pow_lt below (by decide))
  have exponent : (exact m).exponent = -1074 := rfl
  exact ⟨by omega, by omega, by omega⟩

end Shortest

theorem shortest_cases (m : Nat) :
    shortest m = Shortest.exact m ∨
      ∃ count ∈ List.range' 1 17, Shortest.withDigits? m count = some (shortest m) := by
  rw [shortest]
  generalize Shortest.exact m = all
  cases found : (List.range' 1 17).findSome? (Shortest.withDigits? m) with
  | none => exact Or.inl rfl
  | some d => exact Or.inr (List.exists_of_findSome?_eq_some found)

/-- The shortest decimal of a finite magnitude rounds back to it. -/
theorem magnitude_shortest {m : Nat} (finite : m < Binary64.infinite) :
    (shortest m).magnitude = m := by
  rcases shortest_cases m with all | ⟨count, -, found⟩
  · rw [all]
    exact Shortest.magnitude_exact finite
  · rw [Shortest.withDigits?_eq] at found
    exact (Shortest.neighbour?_cases found).1

theorem moderate_shortest {m : Nat} (finite : m < Binary64.infinite) :
    Shortest.Moderate (shortest m) := by
  rcases shortest_cases m with all | ⟨count, few, found⟩
  · rw [all]
    exact Shortest.moderate_exact finite
  · exact Shortest.moderate_withDigits? finite few found

end Argot
