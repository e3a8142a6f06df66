import CallByValue.Decimals
import Mathlib.Tactic.Ring

/-!
# Rounding

What a ratio is rounded to depends on its value alone, and a magnitude is
rounded to itself. So a decimal may be written with a larger or a smaller
exponent, and the digits that are written for a number are read as that number.
-/

namespace CallByValue

theorem roundHalfEven_mul_right (num den : Nat) {c : Nat} (positive : 0 < c) :
    roundHalfEven (num * c) (den * c) = roundHalfEven num den := by
  have quotient : num * c / (den * c) = num / den := Nat.mul_div_mul_right num den positive
  have twice : 2 * (num * c % (den * c)) = 2 * (num % den) * c := by
    rw [Nat.mul_mod_mul_right, Nat.mul_assoc]
  have below : 2 * (num % den) * c < den * c ↔ 2 * (num % den) < den := Nat.mul_lt_mul_right positive
  have above : den * c < 2 * (num % den) * c ↔ den < 2 * (num % den) := Nat.mul_lt_mul_right positive
  simp only [roundHalfEven, quotient, twice, below, above]

theorem roundHalfEven_whole (n : Nat) {den : Nat} (positive : 0 < den) : roundHalfEven (n * den) den = n := by
  simp [roundHalfEven, Nat.mul_div_cancel n positive, positive]

theorem roundHalfEven_of_lt {num den : Nat} (small : 2 * num < den) : roundHalfEven num den = 0 := by
  have less : num < den := by omega
  simp [roundHalfEven, Nat.div_eq_of_lt less, Nat.mod_eq_of_lt less, small]

namespace Magnitude

theorem nearest?_mul_right (num den : Nat) {c : Nat} (positive : 0 < c) :
    nearest? (num * c) (den * c) = nearest? num den := by
  have significand (scale : Nat) :
      roundHalfEven (num * c) (den * c * Nat.pow 2 scale) = roundHalfEven num (den * Nat.pow 2 scale) := by
    rw [Nat.mul_right_comm, roundHalfEven_mul_right num _ positive]
  simp only [nearest?, Nat.mul_div_mul_right num den positive, significand]

theorem ofParts?_eq_none {significand scale : Nat} (large : 2045 < scale) : ofParts? significand scale = none := by
  have outside : ¬ (significand < Nat.pow 2 53 ∧ scale ≤ 2045 ∧ (scale = 0 ∨ Nat.pow 2 52 ≤ significand)) := by
    omega
  exact dif_neg outside

/-- From `2 ^ 2098` units on, no finite number is near enough. -/
theorem nearest?_eq_none {num den bits : Nat} (many : 2098 ≤ bits) (large : 2 ^ bits ≤ num / den) :
    nearest? num den = none := by
  have nonzero : num / den ≠ 0 := by
    have positive : 0 < 2 ^ bits := Nat.two_pow_pos bits
    omega
  have scale : 2045 < scaleOf (num / den) := by
    have log : bits ≤ (num / den).log2 := (Nat.le_log2 nonzero).mpr large
    unfold scaleOf
    omega
  unfold nearest?
  dsimp only
  split
  · exact ofParts?_eq_none (by omega)
  · exact ofParts?_eq_none scale

/-- What is less than half a unit vanishes. -/
theorem nearest?_eq_zero {num den : Nat} (small : 2 * num < den) : nearest? num den = some zero := by
  have scale : scaleOf (num / den) = 0 := by
    rw [Nat.div_eq_of_lt (by omega : num < den)]
    rfl
  have significand : roundHalfEven num (den * Nat.pow 2 0) = 0 := by
    rw [Nat.pow_eq, Nat.pow_zero, Nat.mul_one, roundHalfEven_of_lt small]
  simp only [nearest?, scale, significand]
  rfl

theorem scaleOf_units (m : Magnitude) : scaleOf m.units = m.scale := by
  obtain ⟨s, k, bounded, -, normal⟩ := m
  simp only [Nat.pow_eq] at bounded normal
  simp only [scaleOf, units, Nat.pow_eq]
  by_cases lowest : k = 0
  · subst lowest
    rw [Nat.pow_zero, Nat.mul_one]
    by_cases nothing : s = 0
    · subst nothing
      rfl
    · have log : s.log2 < 53 := (Nat.log2_lt nothing).mpr bounded
      omega
  · have full : 2 ^ 52 ≤ s := normal.resolve_left lowest
    have positive : 0 < 2 ^ k := Nat.two_pow_pos k
    have nonzero : s * 2 ^ k ≠ 0 := Nat.mul_ne_zero (by omega) positive.ne'
    have log : (s * 2 ^ k).log2 = 52 + k := by
      rw [Nat.log2_eq_iff nonzero, Nat.pow_add, Nat.add_right_comm, Nat.pow_add]
      exact ⟨Nat.mul_le_mul_right _ full, (Nat.mul_lt_mul_right positive).mpr bounded⟩
    omega

theorem ofParts?_parts (m : Magnitude) : ofParts? m.significand m.scale = some m :=
  dif_pos ⟨m.significand_lt, m.scale_le, m.normal⟩

/-- A magnitude is nearest to itself. -/
theorem nearest?_units (m : Magnitude) : nearest? m.units 1 = some m := by
  have significand : roundHalfEven m.units (1 * Nat.pow 2 m.scale) = m.significand := by
    rw [Nat.one_mul, units, Nat.pow_eq, roundHalfEven_whole _ (Nat.two_pow_pos m.scale)]
  have bounded : m.significand ≠ Nat.pow 2 53 := m.significand_lt.ne
  simp only [nearest?, Nat.div_one, scaleOf_units, significand, if_neg bounded, ofParts?_parts]

theorem eq_zero_of_significand {m : Magnitude} (nothing : m.significand = 0) : m = zero := by
  obtain ⟨s, k, bounded, small, normal⟩ := m
  cases nothing
  have lowest : k = 0 := normal.resolve_right (by decide)
  subst lowest
  rfl

end Magnitude

namespace Decimal
open Magnitude

theorem unitsPerOne_eq {bits : Nat} (count : bits = 1074) : unitsPerOne = 2 ^ bits := by
  unfold unitsPerOne
  rw [← count]
  rfl

theorem two_pow_le_ten_pow (j : Nat) : 2 ^ (205 * j) ≤ 10 ^ (62 * j) := by
  rw [Nat.pow_mul, Nat.pow_mul]
  exact Nat.pow_le_pow_left (by decide) j

theorem nearest?_of_large {d : Decimal} (nonzero : d.digits ≠ 0) (large : 310 ≤ d.exponent) :
    Magnitude.nearest? d.ratio.1 d.ratio.2 = none := by
  obtain ⟨bits, count⟩ : ∃ bits, bits = 1074 := ⟨_, rfl⟩
  obtain ⟨j, five⟩ : ∃ j, j = 5 := ⟨_, rfl⟩
  have upward : 0 ≤ d.exponent := by omega
  have power : 2 ^ (205 * j) ≤ d.digits * 10 ^ d.exponent.toNat := by
    calc 2 ^ (205 * j) ≤ 10 ^ (62 * j) := two_pow_le_ten_pow j
      _ ≤ 10 ^ d.exponent.toNat := Nat.pow_le_pow_right (by decide) (by omega)
      _ ≤ d.digits * 10 ^ d.exponent.toNat := Nat.le_mul_of_pos_left _ (Nat.pos_of_ne_zero nonzero)
  rw [ratio, if_pos upward]
  apply nearest?_eq_none (by omega : 2098 ≤ 205 * j + bits)
  rw [Nat.div_one, Nat.pow_eq, unitsPerOne_eq count, Nat.pow_add]
  exact Nat.mul_le_mul_right _ power

theorem nearest?_of_small {d : Decimal} (small : d.exponent + d.digits.log2 < -400) :
    Magnitude.nearest? d.ratio.1 d.ratio.2 = some .zero := by
  obtain ⟨bits, count⟩ : ∃ bits, bits = 1074 := ⟨_, rfl⟩
  obtain ⟨k, exponent⟩ : ∃ k : Nat, (-d.exponent).toNat = d.digits.log2 + 401 + k :=
    ⟨(-d.exponent).toNat - (d.digits.log2 + 401), by omega⟩
  have downward : ¬ 0 ≤ d.exponent := by omega
  have bound : d.digits < 2 ^ (d.digits.log2 + 1) := Nat.lt_log2_self
  rw [ratio, if_neg downward]
  apply nearest?_eq_zero
  rw [Nat.pow_eq, unitsPerOne_eq count, exponent]
  calc 2 * (d.digits * 2 ^ bits) = d.digits * 2 ^ (bits + 1) := by rw [Nat.mul_left_comm, ← Nat.pow_succ']
    _ < 2 ^ (d.digits.log2 + 1) * 2 ^ (bits + 1) := (Nat.mul_lt_mul_right (Nat.two_pow_pos _)).mpr bound
    _ = 2 ^ (d.digits.log2 + 1 + (bits + 1)) := (Nat.pow_add ..).symm
    _ ≤ 2 ^ (3 * (d.digits.log2 + 401 + k)) := Nat.pow_le_pow_right (by decide) (by omega)
    _ = (2 ^ 3) ^ (d.digits.log2 + 401 + k) := Nat.pow_mul ..
    _ ≤ 10 ^ (d.digits.log2 + 401 + k) := Nat.pow_le_pow_left (by decide) _

/-- The exponents that settle the answer at once settle it as the ratio would. -/
theorem nearest?_eq (d : Decimal) : d.nearest? = Magnitude.nearest? d.ratio.1 d.ratio.2 := by
  unfold nearest?
  by_cases nothing : d.digits = 0
  · have none : d.ratio.1 = 0 := by
      unfold ratio
      split <;> simp [nothing]
    have some : 0 < d.ratio.2 := by
      unfold ratio
      split
      · exact Nat.one_pos
      · exact Nat.pow_pos (by decide)
    rw [if_pos nothing, none, nearest?_eq_zero (by omega)]
  by_cases large : 310 ≤ d.exponent
  · rw [if_neg nothing, if_pos large, nearest?_of_large nothing large]
  by_cases small : d.exponent + d.digits.log2 < -400
  · rw [if_neg nothing, if_neg large, if_pos small, nearest?_of_small small]
  · rw [if_neg nothing, if_neg large, if_neg small]

theorem nearest?_digit (n : Nat) (e : Int) : nearest? ⟨n * 10, e - 1⟩ = nearest? ⟨n, e⟩ := by
  rw [nearest?_eq, nearest?_eq]
  rcases lt_trichotomy e 0 with down | rfl | up
  · have exponent : (-(e - 1)).toNat = (-e).toNat + 1 := by omega
    simp only [ratio, if_neg (by omega : ¬ 0 ≤ e - 1), if_neg (by omega : ¬ 0 ≤ e), exponent]
    rw [Nat.pow_eq, Nat.pow_eq, Nat.pow_succ, Nat.mul_right_comm]
    exact nearest?_mul_right _ _ (by decide)
  · have tenth : ratio ⟨n * 10, 0 - 1⟩ = (n * unitsPerOne * 10, 1 * 10) := by
      rw [Nat.mul_right_comm]
      rfl
    have one : ratio ⟨n, 0⟩ = (n * unitsPerOne, 1) := by
      simp [ratio]
    rw [tenth, one]
    exact nearest?_mul_right _ _ (by decide)
  · have exponent : e.toNat = (e - 1).toNat + 1 := by omega
    simp only [ratio, if_pos (by omega : 0 ≤ e - 1), if_pos (by omega : 0 ≤ e), exponent]
    rw [Nat.pow_eq, Nat.pow_eq, Nat.pow_succ, Nat.mul_assoc n 10, Nat.mul_comm 10]

/-- Zeros at the end of the digits count as much as in the exponent. -/
theorem nearest?_zeros (n j : Nat) (e : Int) : nearest? ⟨n * 10 ^ j, e - j⟩ = nearest? ⟨n, e⟩ := by
  induction j with
  | zero => simp
  | succ j ih =>
    rw [← ih, ← nearest?_digit (n * 10 ^ j), Nat.pow_succ, Nat.mul_assoc]
    congr 2
    push_cast
    ring

end Decimal

namespace Magnitude

/-- Halves of a unit are tenths, so their decimal digits come to an end. -/
theorem nearest?_tenths (n k : Nat) : nearest? (n * 5 ^ k * 2 ^ k) (10 ^ k) = nearest? n 1 := by
  have tenths : n * 5 ^ k * 2 ^ k = n * 10 ^ k := by rw [Nat.mul_assoc, ← Nat.mul_pow]
  have one := nearest?_mul_right n 1 (Nat.pow_pos (by decide) : 0 < 10 ^ k)
  rwa [Nat.one_mul, ← tenths] at one

theorem nearest?_exact (m : Magnitude) : m.exact.nearest? = some m := by
  obtain ⟨bits, count⟩ : ∃ bits, bits = 1074 := ⟨_, rfl⟩
  have ratio : m.exact.ratio = (m.units * 5 ^ bits * 2 ^ bits, 10 ^ bits) := by
    have exponent : (- -1074 : Int).toNat = bits := count.symm
    unfold exact Decimal.ratio
    dsimp only
    rw [if_neg (by decide : ¬ (0 : Int) ≤ -1074), exponent, ← Decimal.unitsPerOne_eq count, ← count]
    rfl
  rw [Decimal.nearest?_eq, ratio, nearest?_tenths, nearest?_units]

theorem nearest?_neighbour {m : Magnitude} {exponent : Int} {d : Decimal} (found : m.neighbour? exponent = some d) :
    d.nearest? = some m := by
  simpa using List.find?_some found

/-- The digits that are written for a magnitude are read as the magnitude. -/
theorem nearest?_shortest (m : Magnitude) : m.shortest.nearest? = some m := by
  unfold shortest
  dsimp only
  generalize tries : (List.range 17).findSome? (fun (more : Nat) => m.neighbour? (m.leadingExponent - more)) = found
  cases found with
  | none => exact nearest?_exact m
  | some d =>
    obtain ⟨more, -, written⟩ := List.exists_of_findSome?_eq_some tries
    exact nearest?_neighbour written

theorem digits_shortest_ne_zero {m : Magnitude} (nonzero : m.significand ≠ 0) : m.shortest.digits ≠ 0 := by
  intro nothing
  have read := nearest?_shortest m
  rw [Decimal.nearest?, if_pos nothing] at read
  exact nonzero (congrArg significand (Option.some.inj read).symm)

end Magnitude

end CallByValue
