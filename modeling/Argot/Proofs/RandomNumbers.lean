import Mathlib.Order.Monotone.Basic
import Argot.Builtin
import Argot.Proofs.Rounding

set_option autoImplicit false

/-!
# How far random numbers go

A random number is drawn as an integer below the integer part of its bound, and the integer is then
rounded to a number that can be represented.  Beyond `2 ^ 53` not every integer can, and so the
largest ones are rounded up to the bound, which is itself represented
(`random_numbers_stay_within_their_bound`).

The argument is about magnitudes.  They stand on a grid whose steps get twice as wide from one
exponent to the next (`Binary64.quantaOf_grid`), and rounding goes to the nearer of two neighbours
on it (`Binary64.succ_le_nearest_iff`).  All else follows from this: nothing is rounded beyond a
number that it is below, whole numbers are rounded to whole numbers, and whether a whole number is
rounded up to the next number depends on how far that one is from the number before it.
-/

namespace Argot
namespace Binary64

/-! ## The grid of magnitudes -/

/-- The magnitude at `a` steps of `2 ^ s` quanta. -/
theorem quantaOf_grid {s a : Nat} (low : s = 0 ∨ 2 ^ 52 ≤ a) (high : a ≤ 2 ^ 53) :
    quantaOf (s * 0x10000000000000 + a) = a * 2 ^ s := by
  by_cases subnormal : s * 0x10000000000000 + a < 0x10000000000000
  · obtain rfl : s = 0 := by omega
    rw [quantaOf, if_pos subnormal, Nat.zero_mul, Nat.zero_add, Nat.pow_zero, Nat.mul_one]
  · rw [quantaOf, if_neg subnormal, Nat.pow_eq]
    by_cases top : a = 2 ^ 53
    · -- the last step is the first one of the next exponent, which has steps twice as wide
      have exponent : (s * 0x10000000000000 + a) / 0x10000000000000 - 1 = s + 1 := by omega
      have fraction : (s * 0x10000000000000 + a) % 0x10000000000000 = 0 := by omega
      rw [exponent, fraction, top, Nat.pow_succ]
      omega
    · have exponent : (s * 0x10000000000000 + a) / 0x10000000000000 - 1 = s := by omega
      have fraction : 0x10000000000000 + (s * 0x10000000000000 + a) % 0x10000000000000 = a := by
        omega
      rw [exponent, fraction]

/-- Every magnitude has a place on the grid that is not the last one of its exponent. -/
theorem exists_place (m : Nat) :
    ∃ s a, m = s * 0x10000000000000 + a ∧ (s = 0 ∨ 2 ^ 52 ≤ a) ∧ a < 2 ^ 53 := by
  by_cases subnormal : m < 0x10000000000000
  · exact ⟨0, m, by omega, .inl rfl, by omega⟩
  · exact ⟨m / 0x10000000000000 - 1, 0x10000000000000 + m % 0x10000000000000, by omega,
      .inr (by omega), by omega⟩

theorem quantaOf_lt_succ (m : Nat) : quantaOf m < quantaOf (m + 1) := by
  obtain ⟨s, a, rfl, low, high⟩ := exists_place m
  have next := quantaOf_grid (s := s) (a := a + 1) (by omega) high
  rw [quantaOf_grid low (Nat.le_of_lt high), Nat.add_assoc, next]
  exact Nat.mul_lt_mul_of_pos_right (Nat.lt_succ_self a) (Nat.two_pow_pos s)

theorem strictMono_quantaOf : StrictMono quantaOf := strictMono_nat_of_lt_succ quantaOf_lt_succ

/-! ## Rounding goes to the nearest magnitude -/

/-- How many steps something comes to that is `a` steps and a rest. -/
def roundedSteps (step a rest : Nat) : Nat :=
  if 2 * rest < step then a else if step < 2 * rest then a + 1 else a + a % 2

theorem le_roundedSteps (step a rest : Nat) :
    a ≤ roundedSteps step a rest ∧ roundedSteps step a rest ≤ a + 1 := by
  unfold roundedSteps
  split
  · omega
  · split <;> omega

/-- A number of quanta lies between two neighbours on the grid and is rounded to one of them. -/
theorem exists_floor (q : Nat) : ∃ s a rest, q = a * 2 ^ s + rest ∧ rest < 2 ^ s ∧
    (s = 0 ∨ 2 ^ 52 ≤ a) ∧ a < 2 ^ 53 ∧
    nearest q 1 = min infinite (s * 0x10000000000000 + roundedSteps (2 ^ s) a rest) := by
  have positive : 0 < 2 ^ (q.log2 - 52) := Nat.two_pow_pos _
  refine ⟨q.log2 - 52, q / 2 ^ (q.log2 - 52), q % 2 ^ (q.log2 - 52), ?_, Nat.mod_lt _ positive, ?_,
    ?_, ?_⟩
  · rw [Nat.mul_comm]
    exact (Nat.div_add_mod _ _).symm
  · by_cases small : q.log2 ≤ 52
    · exact .inl (by omega)
    · have nonzero : q ≠ 0 := by
        rintro rfl
        exact small (by decide)
      refine .inr ((Nat.le_div_iff_mul_le positive).2 ?_)
      rw [← Nat.pow_add, show 52 + (q.log2 - 52) = q.log2 by omega]
      exact Nat.log2_self_le nonzero
  · refine (Nat.div_lt_iff_lt_mul positive).2 ?_
    rw [← Nat.pow_add]
    exact Nat.lt_of_lt_of_le Nat.lt_log2_self (Nat.pow_le_pow_right (by decide) (by omega))
  · rw [nearest, Nat.div_one, Nat.one_mul, Nat.pow_eq]
    rfl

/-- A number of quanta is rounded to a magnitude or beyond it just if it is nearer to that
magnitude than to the one before, or half-way between them when the magnitude is even. -/
theorem succ_le_nearest_iff {m : Nat} (finite : m + 1 ≤ infinite) (q : Nat) :
    m + 1 ≤ nearest q 1 ↔
      quantaOf m + quantaOf (m + 1) < 2 * q ∨
        quantaOf m + quantaOf (m + 1) = 2 * q ∧ (m + 1) % 2 = 0 := by
  obtain ⟨s, a, rest, whole, small, low, high, rounded⟩ := exists_floor q
  have here := quantaOf_grid low (Nat.le_of_lt high)
  have next := quantaOf_grid (s := s) (a := a + 1) (by omega) high
  have steps := le_roundedSteps (2 ^ s) a rest
  rw [Nat.add_mul, Nat.one_mul] at next
  rw [rounded, Nat.le_min, and_iff_right finite]
  generalize a * 2 ^ s = floor at whole here next
  rcases Nat.lt_trichotomy m (s * 0x10000000000000 + a) with below | rfl | above
  · have first := quantaOf_lt_succ m
    have second := strictMono_quantaOf.monotone (show m + 1 ≤ s * 0x10000000000000 + a from below)
    exact iff_of_true (by omega) (.inl (by omega))
  · -- only between the neighbours does the rest decide
    rw [here, Nat.add_assoc, next, roundedSteps]
    split
    · omega
    · split <;> omega
  · have first := strictMono_quantaOf.monotone (show s * 0x10000000000000 + (a + 1) ≤ m from above)
    have second := quantaOf_lt_succ m
    exact iff_of_false (by omega) (by omega)

/-- Nothing below a magnitude is rounded beyond it. -/
theorem nearest_le {m : Nat} (finite : m < infinite) {q : Nat} (below : q ≤ quantaOf m) :
    nearest q 1 ≤ m := by
  have next := quantaOf_lt_succ m
  have beyond := (succ_le_nearest_iff finite q).not
  omega

/-- Where the steps are not wider than a power of two, a multiple of it has no rest. -/
theorem rest_eq_zero {q a s rest e : Nat} (multiple : 2 ^ e ∣ q) (whole : q = a * 2 ^ s + rest)
    (small : rest < 2 ^ s) (narrow : s ≤ e) : rest = 0 := by
  have all := Nat.dvd_trans (Nat.pow_dvd_pow 2 narrow) multiple
  rw [whole] at all
  exact Nat.eq_zero_of_dvd_of_lt ((Nat.dvd_add_right (Nat.dvd_mul_left _ _)).1 all) small

theorem roundedSteps_zero {step : Nat} (positive : 0 < step) (a : Nat) :
    roundedSteps step a 0 = a :=
  if_pos positive

section Multiples

variable {q e : Nat} (multiple : 2 ^ e ∣ q) (finite : nearest q 1 < infinite)

include multiple finite

/-- A multiple of a power of two is rounded to one. -/
theorem pow_dvd_quantaOf_nearest : 2 ^ e ∣ quantaOf (nearest q 1) := by
  obtain ⟨s, a, rest, whole, small, low, high, rounded⟩ := exists_floor q
  have steps := le_roundedSteps (2 ^ s) a rest
  rw [rounded] at finite ⊢
  rw [Nat.min_eq_right (by omega), quantaOf_grid (by omega) (by omega)]
  rcases Nat.le_total e s with wide | narrow
  · exact Nat.dvd_trans (Nat.pow_dvd_pow 2 wide) (Nat.dvd_mul_left _ _)
  · have nothing := rest_eq_zero multiple whole small narrow
    rw [whole, nothing, Nat.add_zero] at multiple
    rwa [nothing, roundedSteps_zero (Nat.two_pow_pos s)]

/-- A multiple of a power of two that is short enough is not changed. -/
theorem quantaOf_nearest_of_dvd (short : q < 2 ^ (53 + e)) : quantaOf (nearest q 1) = q := by
  obtain ⟨s, a, rest, whole, small, low, high, rounded⟩ := exists_floor q
  have steps := le_roundedSteps (2 ^ s) a rest
  have narrow : s ≤ e := by
    rcases low with rfl | low
    · exact Nat.zero_le e
    · have large : 2 ^ (52 + s) ≤ q := by
        rw [Nat.pow_add, whole]
        exact Nat.le_trans (Nat.mul_le_mul_right _ low) (Nat.le_add_right _ _)
      have exponents := (Nat.pow_lt_pow_iff_right (by decide)).1 (Nat.lt_of_le_of_lt large short)
      omega
  have nothing := rest_eq_zero multiple whole small narrow
  rw [rounded] at finite ⊢
  rw [Nat.min_eq_right (by omega), quantaOf_grid (by omega) (by omega), nothing,
    roundedSteps_zero (Nat.two_pow_pos s)]
  omega

end Multiples

/-- The quanta of one are a power of two; which one it is plays no role. -/
theorem exists_unit_eq : ∃ e, unit = 2 ^ e := ⟨1074, Nat.pow_eq⟩

theorem unit_pos : 0 < unit := by
  obtain ⟨e, power⟩ := exists_unit_eq
  exact power ▸ Nat.two_pow_pos e

/-! ## Whole numbers and where they are rounded to -/

section Order

variable {x y : Binary64}

theorem isNaN_eq_false (finite : x.magnitude < infinite) : x.isNaN = false :=
  decide_eq_false (Nat.not_lt.2 (Nat.le_of_lt finite))

/-- Positive numbers are in the order of their magnitudes. -/
theorem less_iff_magnitude (positive : x.isNegative = false) (positive' : y.isNegative = false)
    (finite : x.magnitude < infinite) (finite' : y.magnitude < infinite) :
    x.less y = true ↔ x.magnitude < y.magnitude := by
  simp [less, key, positive, positive', isNaN_eq_false finite, isNaN_eq_false finite']

theorem eq_of_magnitude_eq (positive : x.isNegative = false) (positive' : y.isNegative = false)
    (same : x.magnitude = y.magnitude) : x = y := by
  rw [← ofMagnitude_isNegative_magnitude x, ← ofMagnitude_isNegative_magnitude y, positive,
    positive', same]

end Order

section Draws

theorem nearest_lt_sign (q : Nat) : nearest q 1 < 0x8000000000000000 :=
  Nat.lt_of_le_of_lt (nearest_le_infinite q 1) (by decide)

theorem magnitude_ofNat (k : Nat) : (ofNat k).magnitude = nearest (k * unit) 1 :=
  magnitude_ofMagnitude false (nearest_lt_sign _)

theorem isNegative_ofNat (k : Nat) : (ofNat k).isNegative = false :=
  isNegative_ofMagnitude false (nearest_lt_sign _)

variable {n : Binary64} {k : Nat}

theorem mul_unit_le_of_lt_truncate (drawn : k < n.truncate) :
    (k + 1) * unit ≤ quantaOf n.magnitude :=
  (Nat.le_div_iff_mul_le unit_pos).1 drawn

/-- A whole number below a number is not rounded beyond that number. -/
theorem magnitude_ofNat_le (finite : n.magnitude < infinite) (drawn : k < n.truncate) :
    (ofNat k).magnitude ≤ n.magnitude := by
  have room := mul_unit_le_of_lt_truncate drawn
  rw [Nat.add_mul] at room
  rw [magnitude_ofNat]
  exact nearest_le finite (by omega)

/-- Whole numbers are rounded to whole numbers. -/
theorem exists_whole_ofNat (finite : (ofNat k).magnitude < infinite) :
    ∃ r : Nat, (ofNat k).quanta = (r * unit : Nat) := by
  obtain ⟨e, power⟩ := exists_unit_eq
  rw [magnitude_ofNat] at finite
  have multiple : unit ∣ k * unit := Nat.dvd_mul_left unit k
  rw [quanta, isNegative_ofNat, if_neg Bool.false_ne_true, magnitude_ofNat]
  rw [power] at multiple finite ⊢
  obtain ⟨r, rounded⟩ := pow_dvd_quantaOf_nearest multiple finite
  exact ⟨r, by rw [rounded, Nat.mul_comm]⟩

/-- Small whole numbers are not rounded at all. -/
theorem quantaOf_ofNat (finite : (ofNat k).magnitude < infinite) (small : k < 2 ^ 53) :
    quantaOf (ofNat k).magnitude = k * unit := by
  obtain ⟨e, power⟩ := exists_unit_eq
  rw [magnitude_ofNat] at finite ⊢
  have multiple : unit ∣ k * unit := Nat.dvd_mul_left unit k
  rw [power] at multiple finite ⊢
  refine quantaOf_nearest_of_dvd multiple finite ?_
  rw [Nat.pow_add]
  exact Nat.mul_lt_mul_of_pos_right small (Nat.two_pow_pos e)

/-- Between neighbours that are whole numbers it depends on the nearer one. -/
theorem magnitude_ofNat_lt_iff {m p low : Nat} (finite : m + 1 ≤ infinite)
    (before : quantaOf m = low * unit) (here : quantaOf (m + 1) = p * unit) :
    (ofNat k).magnitude < m + 1 ↔ 2 * k < low + p ∨ 2 * k = low + p ∧ (m + 1) % 2 = 1 := by
  have positive := unit_pos
  rw [magnitude_ofNat, ← Nat.not_le, succ_le_nearest_iff finite, before, here, ← Nat.add_mul,
    ← Nat.mul_assoc, Nat.mul_lt_mul_right positive, Nat.mul_left_inj (by omega)]
  omega

end Draws

/-! ## Numbers too large for fractions -/

section Large

variable {n : Binary64}

/-- A number beyond the last one that has a neighbour at distance one is a whole number of steps
that are whole numbers. -/
theorem exists_steps_of_large {s a : Nat} (place : n.magnitude = s * 0x10000000000000 + a)
    (low : s = 0 ∨ 2 ^ 52 ≤ a) (high : a < 2 ^ 53) (large : 2 ^ 53 < n.truncate) :
    ∃ t, 2 ^ s = 2 ^ (t + 1) * unit ∧ s ≠ 0 ∧ n.truncate = a * 2 ^ (t + 1) := by
  obtain ⟨e, power⟩ := exists_unit_eq
  rw [truncate, place, quantaOf_grid low (Nat.le_of_lt high), power] at large ⊢
  have wide : e < s := by
    by_contra narrow
    have step : 2 ^ s ≤ 2 ^ e := Nat.pow_le_pow_right (by decide) (Nat.le_of_not_lt narrow)
    have steps : a * 2 ^ s ≤ 2 ^ 53 * 2 ^ e := Nat.mul_le_mul (Nat.le_of_lt high) step
    have small := Nat.div_le_of_le_mul (Nat.mul_comm (2 ^ 53) (2 ^ e) ▸ steps)
    omega
  refine ⟨s - e - 1, ?_, by omega, ?_⟩
  · rw [← Nat.pow_add, show s - e - 1 + 1 + e = s by omega]
  · rw [show s = s - e - 1 + 1 + e by omega, Nat.pow_add, ← Nat.mul_assoc,
      Nat.mul_div_cancel _ (Nat.two_pow_pos e)]
    simp

/-- The number before such a number is a whole number too.  Below `2 ^ 54` it is two less; from
there on it is further away, or it is two less and the magnitude is even. -/
theorem exists_before_of_large (large : 2 ^ 53 < n.truncate) : ∃ m low,
    n.magnitude = m + 1 ∧ quantaOf m = low * unit ∧ quantaOf (m + 1) = n.truncate * unit ∧
      (n.truncate < 2 ^ 54 ∧ low + 2 = n.truncate ∧ (n.truncate % 4 = 2 ↔ (m + 1) % 2 = 1) ∨
        2 ^ 54 ≤ n.truncate ∧
          (low + 2 < n.truncate ∨ low + 2 = n.truncate ∧ (m + 1) % 2 = 0)) := by
  obtain ⟨s, a, place, low, high⟩ := exists_place n.magnitude
  obtain ⟨t, steps, nonzero, whole⟩ := exists_steps_of_large place low high large
  have normal : 2 ^ 52 ≤ a := low.resolve_left nonzero
  have here : quantaOf (s * 0x10000000000000 + a) = n.truncate * unit := by
    rw [quantaOf_grid low (Nat.le_of_lt high), steps, whole, Nat.mul_assoc]
  have double : 2 ^ (t + 1) = 2 ^ t + 2 ^ t := by rw [Nat.pow_succ, Nat.mul_two]
  by_cases first : a = 2 ^ 52
  · -- the first number of an exponent: the steps before it are half as wide
    obtain ⟨z, rfl⟩ : ∃ z, s = z + 1 := ⟨s - 1, by omega⟩
    have half : 2 ^ z = 2 ^ t * unit := by
      rw [Nat.pow_succ, Nat.pow_succ, Nat.mul_right_comm] at steps
      exact Nat.mul_right_cancel (by decide) steps
    have place' : (z + 1) * 0x10000000000000 + a = z * 0x10000000000000 + (2 ^ 53 - 1) + 1 := by
      omega
    rw [place'] at here place
    refine ⟨_, (2 ^ 53 - 1) * 2 ^ t, place, ?_, here, .inr ?_⟩
    · rw [quantaOf_grid (.inr (by decide)) (by decide), half, Nat.mul_assoc]
    · have beyond : 2 ≤ 2 ^ t := by
        by_contra small
        have : 2 ^ t ≤ 1 := by omega
        rw [first, double] at whole
        omega
      rw [first, double] at whole
      omega
  · obtain ⟨b, rfl⟩ : ∃ b, a = b + 1 := ⟨a - 1, by omega⟩
    rw [← Nat.add_assoc] at here place
    refine ⟨_, b * 2 ^ (t + 1), place, ?_, here, ?_⟩
    · rw [quantaOf_grid (.inr (by omega)) (by omega), steps, Nat.mul_assoc]
    · rw [Nat.add_mul, Nat.one_mul] at whole
      cases t with
      | zero =>
        left
        omega
      | succ t =>
        have wide : 2 ^ 2 ≤ 2 ^ (t + 1 + 1) := Nat.pow_le_pow_right (by decide) (by omega)
        have far : 2 ^ 52 * 2 ^ 2 ≤ b * 2 ^ (t + 1 + 1) := Nat.mul_le_mul (by omega) wide
        right
        omega

end Large

section Bound

variable {n : Binary64} {k : Nat} (positive : n.isNegative = false)
  (finite : n.magnitude < infinite) (drawn : k < n.truncate)

include positive finite drawn

theorem ofNat_less_iff : (ofNat k).less n = true ↔ (ofNat k).magnitude < n.magnitude :=
  less_iff_magnitude (isNegative_ofNat k) positive
    (Nat.lt_of_le_of_lt (magnitude_ofNat_le finite drawn) finite) finite

theorem ofNat_less_or_eq : (ofNat k).less n = true ∨ ofNat k = n := by
  rw [ofNat_less_iff positive finite drawn]
  rcases Nat.lt_or_eq_of_le (magnitude_ofNat_le finite drawn) with below | same
  · exact .inl below
  · exact .inr (eq_of_magnitude_eq (isNegative_ofNat k) positive same)

theorem ofNat_less_of_small (small : n.truncate ≤ 2 ^ 53) : (ofNat k).less n = true := by
  have room := mul_unit_le_of_lt_truncate drawn
  have within := Nat.lt_of_le_of_lt (magnitude_ofNat_le finite drawn) finite
  rw [ofNat_less_iff positive finite drawn, ← strictMono_quantaOf.lt_iff_lt,
    quantaOf_ofNat within (Nat.lt_of_lt_of_le drawn small)]
  refine Nat.lt_of_lt_of_le (Nat.mul_lt_mul_of_pos_right (Nat.lt_succ_self k) unit_pos) room

/-- A whole number below a number stays below it just if all such numbers are represented, or if
it is nearer to the number before, or half-way between the two when the magnitude is odd. -/
theorem ofNat_less_iff_nearer :
    (ofNat k).less n = true ↔ n.truncate ≤ 2 ^ 53 ∨
      2 * k < (ofMagnitude false (n.magnitude - 1)).truncate + n.truncate ∨
      2 * k = (ofMagnitude false (n.magnitude - 1)).truncate + n.truncate ∧
        n.magnitude % 2 = 1 := by
  by_cases small : n.truncate ≤ 2 ^ 53
  · exact iff_of_true (ofNat_less_of_small positive finite drawn small) (.inl small)
  · obtain ⟨m, low, next, before, here, _⟩ := exists_before_of_large (Nat.lt_of_not_le small)
    have previous : (ofMagnitude false (n.magnitude - 1)).truncate = low := by
      have inside : m < 0x8000000000000000 := by
        unfold infinite at finite
        omega
      rw [truncate, next, Nat.add_sub_cancel, magnitude_ofMagnitude false inside, before,
        Nat.mul_div_cancel _ unit_pos]
    rw [ofNat_less_iff positive finite drawn, previous, next,
      magnitude_ofNat_lt_iff (by omega) before here, or_iff_right small]

end Bound

/-- Every whole number below a number stays below it just if the number is at most `2 ^ 53`, or
twice an odd number and less than `2 ^ 54`. -/
theorem forall_ofNat_less_iff {n : Binary64} (positive : n.isNegative = false)
    (finite : n.magnitude < infinite) :
    (∀ k < n.truncate, (ofNat k).less n = true) ↔
      n.truncate ≤ 2 ^ 53 ∨ n.truncate < 2 ^ 54 ∧ n.truncate % 4 = 2 := by
  by_cases small : n.truncate ≤ 2 ^ 53
  · exact iff_of_true (fun k drawn => ofNat_less_of_small positive finite drawn small) (.inl small)
  · obtain ⟨m, low, next, before, here, distance⟩ := exists_before_of_large (Nat.lt_of_not_le small)
    have below {k : Nat} (drawn : k < n.truncate) : (ofNat k).less n = true ↔
        2 * k < low + n.truncate ∨ 2 * k = low + n.truncate ∧ (m + 1) % 2 = 1 := by
      rw [ofNat_less_iff positive finite drawn, next, magnitude_ofNat_lt_iff (by omega) before here]
    rw [or_iff_right small]
    constructor
    · intro all
      -- the largest of them is the first to be rounded up
      have last := (below (by omega)).1 (all (n.truncate - 1) (by omega))
      omega
    · intro safe k drawn
      rw [below drawn]
      omega

end Binary64

/-! ## Random numbers -/

namespace Builtin

/-- A bound is accepted if it is a number from one to below `2 ^ 63`. -/
theorem bound_eq_ok_iff {name : Text} {n : Binary64} {m : Nat} :
    bound name [.number n] = .ok m ↔
      n.isNaN = false ∧ n.less (.ofNat 1) = false ∧ n.less (.ofNat 0x8000000000000000) = true ∧
        n.truncate = m := by
  have known : bound name [.number n] =
      if n.isNaN || n.less (.ofNat 1) || !n.less (.ofNat 0x8000000000000000) then
        .error (.boundOutOfRange name (.number n))
      else .ok n.truncate := rfl
  rw [known]
  cases n.isNaN <;> cases n.less (.ofNat 1) <;> cases n.less (.ofNat 0x8000000000000000) <;> simp

/-- The bounds that are accepted are positive and finite. -/
theorem bound_eq_ok {name : Text} {n : Binary64} {m : Nat}
    (accepted : bound name [.number n] = .ok m) :
    n.isNegative = false ∧ n.magnitude < Binary64.infinite ∧ n.truncate = m ∧ 0 < m := by
  obtain ⟨number, least, most, rfl⟩ := bound_eq_ok_iff.1 accepted
  have one : (Binary64.ofNat 1).isNaN = false ∧
      (Binary64.ofNat 1).key = 0x3FF0000000000000 := by decide +kernel
  have top : (Binary64.ofNat 0x8000000000000000).key = 0x43E0000000000000 := by decide +kernel
  have quantum : Binary64.quantaOf 0x3FF0000000000000 = Binary64.unit := by decide +kernel
  have low : 0x3FF0000000000000 ≤ n.key := by
    simpa [Binary64.less, number, one] using least
  have high : n.key < 0x43E0000000000000 := by
    simp only [Binary64.less, Bool.and_eq_true, decide_eq_true_eq, top] at most
    exact most.2
  have positive : n.isNegative = false := by
    cases sign : n.isNegative with
    | false => rfl
    | true =>
      rw [Binary64.key, sign, if_pos rfl] at low
      omega
  rw [Binary64.key, positive, if_neg Bool.false_ne_true] at low high
  have finite : n.magnitude < Binary64.infinite := by
    unfold Binary64.infinite
    omega
  refine ⟨positive, finite, rfl, Nat.div_pos ?_ Binary64.unit_pos⟩
  rw [← quantum]
  exact Binary64.strictMono_quantaOf.monotone (by omega)

theorem random_of_bound {name : Text} {args : List Value} {m : Nat}
    (accepted : bound name args = .ok m) (g : Generator) :
    random name args g = (.ok (.number (Binary64.ofNat (g.draw m).1)), (g.draw m).2) := by
  rw [random, accepted]

end Builtin

/-- **Random numbers do not go beyond their bound, and large ones may reach it.**  The bounds that
are accepted are the numbers from one to below `2 ^ 63`.  Take any of them, and let `m` be its
integer part.  What is answered is a whole number below `m`, as the generator draws it, rounded to
a number that can be represented.

* Whatever number below `m` is drawn, the answer is finite, not negative, and whole.  It is less
  than the bound, or it is the bound.
* It is less than the bound just if `m` is at most `2 ^ 53`, or the number drawn is nearer to the
  number before the bound than to the bound, or half-way between them when the magnitude of the
  bound is odd.
* All numbers that can be drawn are answered with less than the bound just if `m` is at most
  `2 ^ 53`, or less than `2 ^ 54` and twice an odd number. -/
theorem random_numbers_stay_within_their_bound (name : Text) (n : Binary64) (m : Nat) :
    (Builtin.bound name [.number n] = .ok m ↔
      n.isNaN = false ∧ n.less (.ofNat 1) = false ∧ n.less (.ofNat (2 ^ 63)) = true ∧
        n.truncate = m) ∧
    (Builtin.bound name [.number n] = .ok m →
      (∀ g : Generator, (g.draw m).1 < m ∧
        (Builtin.random name [.number n] g).1 = .ok (.number (.ofNat (g.draw m).1))) ∧
      (∀ k < m,
        (Binary64.ofNat k).isFinite = true ∧ (Binary64.ofNat k).isNegative = false ∧
        (∃ r : Nat, (Binary64.ofNat k).quanta = (r * Binary64.unit : Nat)) ∧
        ((Binary64.ofNat k).less n = true ∨ Binary64.ofNat k = n) ∧
        let before := (Binary64.ofMagnitude false (n.magnitude - 1)).truncate
        ((Binary64.ofNat k).less n = true ↔
          m ≤ 2 ^ 53 ∨ 2 * k < before + m ∨ 2 * k = before + m ∧ n.magnitude % 2 = 1)) ∧
      ((∀ k < m, (Binary64.ofNat k).less n = true) ↔ m ≤ 2 ^ 53 ∨ m < 2 ^ 54 ∧ m % 4 = 2)) := by
  refine ⟨Builtin.bound_eq_ok_iff, ?_⟩
  intro accepted
  obtain ⟨positive, finite, rfl, someDrawn⟩ := Builtin.bound_eq_ok accepted
  refine ⟨?_, ?_, Binary64.forall_ofNat_less_iff positive finite⟩
  · intro g
    rw [Builtin.random_of_bound accepted]
    exact ⟨g.draw_lt someDrawn, rfl⟩
  · intro k drawn
    have within := Nat.lt_of_le_of_lt (Binary64.magnitude_ofNat_le finite drawn) finite
    exact ⟨decide_eq_true within, Binary64.isNegative_ofNat k, Binary64.exists_whole_ofNat within,
      Binary64.ofNat_less_or_eq positive finite drawn,
      Binary64.ofNat_less_iff_nearer positive finite drawn⟩

/-- With `2 ^ 53 + 2` for the bound, the numbers drawn are not all represented; still the answers
are less than the bound. -/
theorem bound_twice_odd_is_not_reached :
    let n := Binary64.ofNat (2 ^ 53 + 2)
    Builtin.bound "random" [.number n] = .ok (2 ^ 53 + 2) ∧
      (∀ k < 2 ^ 53 + 2, (Binary64.ofNat k).less n = true) ∧
      ∃ k < 2 ^ 53 + 2, (Binary64.ofNat k).quanta ≠ (k * Binary64.unit : Nat) := by
  intro n
  obtain ⟨accepts, answers⟩ := random_numbers_stay_within_their_bound "random" n (2 ^ 53 + 2)
  have accepted := accepts.2 (by decide +kernel)
  have all := (answers accepted).2.2
  exact ⟨accepted, all.2 (.inr (by decide)), 2 ^ 53 + 1, by decide, by decide +kernel⟩

/-- The fourth random number after the seed one is the bound itself when that is
115450433152419440: the generator draws five less, and the numbers that can be represented there are
sixteen apart. -/
theorem fourth_random_number_reaches_its_bound :
    let n := Binary64.ofNat 115450433152419440
    let g := (Generator.ofSeed 1).next.2.next.2.next.2
    Builtin.bound "random" [.number n] = .ok 115450433152419440 ∧
      (g.draw 115450433152419440).1 = 115450433152419435 ∧
      (Builtin.random "random" [.number n] g).1 = .ok (.number n) ∧
      (Binary64.ofNat 115450433152419435).less n = false := by
  intro n g
  have accepted : Builtin.bound "random" [.number n] = .ok 115450433152419440 :=
    Builtin.bound_eq_ok_iff.2 (by decide +kernel)
  have drawn : (g.draw 115450433152419440).1 = 115450433152419435 := by decide +kernel
  have rounded : Binary64.ofNat 115450433152419435 = n := by decide +kernel
  refine ⟨accepted, drawn, ?_, ?_⟩
  · rw [Builtin.random_of_bound accepted, drawn, rounded]
  · rw [rounded]
    decide +kernel

end Argot
