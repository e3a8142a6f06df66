import CallByValue.Proofs.ValueEquality
import CallByValue.Proofs.Rounding
import Mathlib.Algebra.Order.Field.Basic
import Mathlib.Algebra.Order.Ring.Abs
import Mathlib.Data.Nat.Cast.Order.Field
import Mathlib.Tactic.Linarith
import Mathlib.Tactic.NormNum
import Mathlib.Tactic.Positivity

/-!
# Nearest numbers

Rounding a ratio to 53 bits gives the nearest of all finite numbers, the even
one of two that are as near. The scale that the whole units of the ratio ask for
tells numbers apart where it matters: what has a smaller scale is farther away
than the smallest number with 53 bits, and what has a larger one is a multiple.
-/

namespace CallByValue

/-! ## Whole numbers -/

/-- A ratio is rounded by less than a half, or by a half to an even number. -/
theorem abs_roundHalfEven_sub (num : Nat) {den : Nat} (positive : 0 < den) :
    |(roundHalfEven num den : ℚ) - num / den| < 1 / 2 ∨
      |(roundHalfEven num den : ℚ) - num / den| = 1 / 2 ∧ Even (roundHalfEven num den) := by
  have above : (0 : ℚ) < den := by exact_mod_cast positive
  have parts : (num : ℚ) / den = (num / den : ℕ) + (num % den : ℕ) / den := by
    rw [div_eq_iff above.ne', add_mul, div_mul_cancel₀ _ above.ne']
    exact_mod_cast (Nat.div_add_mod' num den).symm
  have low : 2 * (num % den) < den ↔ ((num % den : ℕ) : ℚ) / den < 1 / 2 := by
    rw [div_lt_div_iff₀ above two_pos, one_mul, mul_comm]
    exact_mod_cast Iff.rfl
  have high : den < 2 * (num % den) ↔ 1 / 2 < ((num % den : ℕ) : ℚ) / den := by
    rw [div_lt_div_iff₀ two_pos above, one_mul, mul_comm _ (2 : ℚ)]
    exact_mod_cast Iff.rfl
  have below : ((num % den : ℕ) : ℚ) / den < 1 := by
    rw [div_lt_one above]
    exact_mod_cast Nat.mod_lt num positive
  have nonneg : 0 ≤ ((num % den : ℕ) : ℚ) / den := by positivity
  simp only [roundHalfEven, low, high, parts]
  generalize ((num % den : ℕ) : ℚ) / den = fraction at *
  generalize num / den = quotient
  split_ifs with less more even
  · left
    rwa [sub_add_cancel_left, abs_neg, abs_of_nonneg nonneg]
  · left
    push_cast
    rw [add_sub_add_left_eq_sub, abs_of_pos (by linarith)]
    linarith
  · obtain rfl : fraction = 1 / 2 := le_antisymm (not_lt.mp more) (not_lt.mp less)
    right
    rw [sub_add_cancel_left, abs_neg]
    exact ⟨abs_of_pos (by norm_num), Nat.even_iff.mpr even⟩
  · obtain rfl : fraction = 1 / 2 := le_antisymm (not_lt.mp more) (not_lt.mp less)
    right
    push_cast
    rw [add_sub_add_left_eq_sub]
    exact ⟨by norm_num, Nat.even_iff.mpr (by omega)⟩

/-- A number that is off by a half at most is nearer than any other, or as near and even where the other is odd. -/
theorem nearer_of_half {n t : ℕ} {x : ℚ} (half : |n - x| < 1 / 2 ∨ |n - x| = 1 / 2 ∧ Even n) (differs : t ≠ n) :
    |n - x| < |t - x| ∨ |n - x| = |t - x| ∧ Even n ∧ ¬ Even t := by
  have apart : 1 ≤ |(t : ℚ) - n| := by
    exact_mod_cast Int.one_le_abs (by omega : (t : ℤ) - n ≠ 0)
  have triangle : |(t : ℚ) - n| ≤ |(t : ℚ) - x| + |(n : ℚ) - x| := by
    rw [abs_sub_comm (n : ℚ) x]
    exact abs_sub_le _ _ _
  rcases half with less | ⟨exactly, even⟩
  · left
    linarith
  · by_cases farther : |(n : ℚ) - x| < |(t : ℚ) - x|
    · exact .inl farther
    · have next : |(t : ℚ) - n| = 1 := by linarith
      have odd : |(t : ℤ) - n| = 1 := by exact_mod_cast next
      refine .inr ⟨by linarith, even, ?_⟩
      rw [Nat.even_iff] at even ⊢
      rcases (abs_eq one_pos.le).mp odd with up | down <;> omega

theorem le_of_half {n : ℕ} {x : ℚ} (half : |n - x| < 1 / 2 ∨ |n - x| = 1 / 2 ∧ Even n) (t : ℕ) :
    |n - x| ≤ |t - x| := by
  by_cases same : t = n
  · rw [same]
  · rcases nearer_of_half half same with nearer | ⟨tie, -⟩
    · exact nearer.le
    · exact tie.le

theorem roundHalfEven_le {num den k : Nat} (bounded : num ≤ k * den) (positive : 0 < den) :
    roundHalfEven num den ≤ k := by
  rcases Nat.lt_or_ge num (k * den) with less | reach
  · have quotient : num / den < k := (Nat.div_lt_iff_lt_mul positive).mpr less
    unfold roundHalfEven
    dsimp only
    split_ifs <;> omega
  · rw [Nat.le_antisymm bounded reach, roundHalfEven_whole k positive]

theorem le_roundHalfEven {num den k : Nat} (reach : k * den ≤ num) (positive : 0 < den) :
    k ≤ roundHalfEven num den := by
  have quotient : k ≤ num / den := (Nat.le_div_iff_mul_le positive).mpr reach
  unfold roundHalfEven
  dsimp only
  split_ifs <;> omega

/-- Half way behind an odd number, a ratio is rounded to the even one that follows. -/
theorem roundHalfEven_eq_succ_iff {num den k : Nat} (odd : k % 2 = 1) (below : num < (k + 1) * den) :
    roundHalfEven num den = k + 1 ↔ (2 * k + 1) * den ≤ 2 * num := by
  have positive : 0 < den := Nat.pos_of_lt_mul_left below
  rw [Nat.add_mul, Nat.one_mul, Nat.mul_assoc]
  rw [Nat.add_mul, Nat.one_mul] at below
  by_cases reach : k * den ≤ num
  · have quotient : num / den = k := Nat.div_eq_of_lt_le reach (by rwa [Nat.add_mul, Nat.one_mul])
    have rest : num % den = num - k * den := by rw [Nat.mod_eq_sub_div_mul, quotient]
    unfold roundHalfEven
    dsimp only
    rw [quotient, rest]
    generalize k * den = whole at *
    split_ifs <;> omega
  · have few : roundHalfEven num den ≤ k := roundHalfEven_le (by omega) positive
    generalize k * den = whole at *
    omega

/-! ## Magnitudes -/

namespace Magnitude

variable {num den : Nat} {m : Magnitude}

theorem eq_of_ofParts? {significand scale : Nat} (made : ofParts? significand scale = some m) :
    m.significand = significand ∧ m.scale = scale := by
  unfold ofParts? at made
  split at made
  · cases made
    exact ⟨rfl, rfl⟩
  · cases made

/-- The nearest magnitude is a rounded multiple of the power of two that the scale of the ratio gives. -/
theorem units_of_nearest? (found : nearest? num den = some m) :
    m.units = roundHalfEven num (den * 2 ^ scaleOf (num / den)) * 2 ^ scaleOf (num / den) ∧
      (Even (roundHalfEven num (den * 2 ^ scaleOf (num / den))) → Even m.significand) := by
  simp only [nearest?, Nat.pow_eq] at found
  generalize scaleOf (num / den) = scale at *
  generalize roundHalfEven num (den * 2 ^ scale) = significand at *
  split at found
  · rename_i full
    obtain ⟨parts, next⟩ := eq_of_ofParts? found
    rw [units, Nat.pow_eq, parts, next, full, Nat.pow_succ' (n := scale), ← Nat.mul_assoc]
    exact ⟨rfl, fun _ => by decide⟩
  · obtain ⟨parts, same⟩ := eq_of_ofParts? found
    rw [units, Nat.pow_eq, parts, same]
    exact ⟨rfl, id⟩

/-- What has a smaller scale has less than 53 bits in a larger one. -/
theorem units_lt_of_scale_lt {other : Magnitude} {scale : Nat} (smaller : other.scale < scale) :
    other.units < 2 ^ 52 * 2 ^ scale := by
  have bounded : other.significand < 2 ^ 53 := other.significand_lt
  calc other.units = other.significand * 2 ^ other.scale := rfl
    _ < 2 ^ 53 * 2 ^ other.scale := (Nat.mul_lt_mul_right (Nat.two_pow_pos _)).mpr bounded
    _ = 2 ^ (53 + other.scale) := (Nat.pow_add ..).symm
    _ ≤ 2 ^ (52 + scale) := Nat.pow_le_pow_right two_pos (by omega)
    _ = 2 ^ 52 * 2 ^ scale := Nat.pow_add ..

theorem scaleOf_le {units : Nat} (positive : 0 < scaleOf units) : 2 ^ 52 * 2 ^ scaleOf units ≤ units := by
  have log : 52 + scaleOf units = units.log2 := by
    unfold scaleOf at *
    omega
  have nonzero : units ≠ 0 := by
    rintro rfl
    exact absurd positive (Nat.not_lt_zero _)
  rw [← Nat.pow_add, log]
  exact Nat.log2_self_le nonzero

/-- Multiples of a power of two are as far from a ratio as their factors are from its quotient by that. -/
theorem abs_multiple_sub (num den t scale : Nat) :
    |((t * 2 ^ scale : ℕ) : ℚ) - num / den| = |(t : ℚ) - num / (den * 2 ^ scale : ℕ)| * 2 ^ scale := by
  have power : (0 : ℚ) < 2 ^ scale := by positivity
  conv_rhs => rw [← abs_of_pos power]
  rw [← abs_mul]
  push_cast
  rw [sub_mul, div_mul_eq_mul_div, mul_div_mul_right _ _ power.ne']

/-- Of all magnitudes, the nearest one is off from the exact ratio by less than any other, or by as much and
    even where the other is odd. -/
theorem nearest?_spec (positive : 0 < den) (found : nearest? num den = some m) {other : Magnitude}
    (differs : other.units ≠ m.units) :
    |(m.units : ℚ) - num / den| < |(other.units : ℚ) - num / den| ∨
      |(m.units : ℚ) - num / den| = |(other.units : ℚ) - num / den| ∧ Even m.significand ∧
        ¬ Even other.significand := by
  obtain ⟨size, even⟩ := units_of_nearest? found
  have reach := @scaleOf_le (num / den)
  have floor : ((num / den : ℕ) : ℚ) ≤ num / den := Nat.cast_div_le
  generalize scaleOf (num / den) = scale at *
  have power : (0 : ℚ) < 2 ^ scale := by positivity
  have half := abs_roundHalfEven_sub num (Nat.mul_pos positive (Nat.two_pow_pos scale))
  generalize roundHalfEven num (den * 2 ^ scale) = rounded at *
  rw [size] at differs ⊢
  by_cases smaller : other.scale < scale
  · have reached : ((2 ^ 52 * 2 ^ scale : ℕ) : ℚ) ≤ num / den :=
      le_trans (Nat.cast_le.mpr (reach (Nat.zero_lt_of_lt smaller))) floor
    have less : (other.units : ℚ) < (2 ^ 52 * 2 ^ scale : ℕ) := Nat.cast_lt.mpr (units_lt_of_scale_lt smaller)
    left
    calc |((rounded * 2 ^ scale : ℕ) : ℚ) - num / den| ≤ |((2 ^ 52 * 2 ^ scale : ℕ) : ℚ) - num / den| := by
          rw [abs_multiple_sub, abs_multiple_sub, mul_le_mul_iff_left₀ power]
          exact le_of_half half _
      _ = num / den - (2 ^ 52 * 2 ^ scale : ℕ) := by
          rw [abs_sub_comm, abs_of_nonneg (sub_nonneg.mpr reached)]
      _ < num / den - other.units := sub_lt_sub_left less _
      _ = |(other.units : ℚ) - num / den| := by
          rw [abs_sub_comm, abs_of_pos (sub_pos.mpr (less.trans_le reached))]
  · obtain ⟨more, further⟩ : ∃ more, other.scale = more + scale := ⟨_, (Nat.sub_add_cancel (not_lt.mp smaller)).symm⟩
    have multiple : other.units = other.significand * 2 ^ more * 2 ^ scale := by
      rw [units, Nat.pow_eq, further, Nat.pow_add, Nat.mul_assoc]
    rw [multiple] at differs ⊢
    rw [abs_multiple_sub, abs_multiple_sub, mul_lt_mul_iff_left₀ power, mul_right_cancel_iff_of_pos power]
    have other_factor : other.significand * 2 ^ more ≠ rounded := fun same => differs (by rw [same])
    rcases nearer_of_half half other_factor with nearer | ⟨tie, this, odd⟩
    · exact .inl nearer
    · exact .inr ⟨tie, even this, fun even => odd (even.mul_right _)⟩

/-- The rounded multiple has no more than 53 bits, and 53 bits where the scale is not the smallest one. -/
theorem rounded_bounds (positive : 0 < den) :
    num < 2 ^ 53 * (den * 2 ^ scaleOf (num / den)) ∧
      roundHalfEven num (den * 2 ^ scaleOf (num / den)) ≤ 2 ^ 53 ∧
      (scaleOf (num / den) = 0 ∨ 2 ^ 52 * 2 ^ scaleOf (num / den) ≤ num / den ∧
        2 ^ 52 ≤ roundHalfEven num (den * 2 ^ scaleOf (num / den))) := by
  have unit : 0 < den * 2 ^ scaleOf (num / den) := Nat.mul_pos positive (Nat.two_pow_pos _)
  have below : num < 2 ^ 53 * (den * 2 ^ scaleOf (num / den)) := by
    have log : (num / den).log2 + 1 ≤ 53 + scaleOf (num / den) := by
      unfold scaleOf
      omega
    have floor : num / den < 2 ^ (53 + scaleOf (num / den)) :=
      Nat.lt_log2_self.trans_le (Nat.pow_le_pow_right two_pos log)
    rwa [Nat.div_lt_iff_lt_mul positive, Nat.pow_add, Nat.mul_assoc, Nat.mul_comm _ den] at floor
  refine ⟨below, roundHalfEven_le below.le unit, ?_⟩
  by_cases lowest : scaleOf (num / den) = 0
  · exact .inl lowest
  · have reach := scaleOf_le (Nat.pos_of_ne_zero lowest)
    have whole : 2 ^ 52 * 2 ^ scaleOf (num / den) * den ≤ num := (Nat.le_div_iff_mul_le positive).mp reach
    rw [Nat.mul_assoc, Nat.mul_comm _ den] at whole
    exact .inr ⟨reach, le_roundHalfEven whole unit⟩

theorem ofParts?_ne_none {significand scale : Nat} (bounded : significand < 2 ^ 53) (low : scale ≤ 2045)
    (normal : scale = 0 ∨ 2 ^ 52 ≤ significand) : ofParts? significand scale ≠ none := by
  rw [ofParts?, dif_pos ⟨bounded, low, normal⟩]
  nofun

/-- From half a step beyond the largest magnitude on, none is near enough. -/
theorem nearest?_eq_none_iff (positive : 0 < den) {top : Nat} (last : top = 2044) :
    nearest? num den = none ↔ (2 ^ 54 - 1) * (den * 2 ^ top) ≤ num := by
  obtain ⟨below, most, normal⟩ := @rounded_bounds num den positive
  simp only [nearest?, Nat.pow_eq]
  generalize scaleOf (num / den) = scale at *
  rcases Nat.lt_trichotomy scale (top + 1) with less | rfl | more
  · have power : den * 2 ^ scale ≤ den * 2 ^ top :=
      Nat.mul_le_mul_left _ (Nat.pow_le_pow_right two_pos (Nat.le_of_lt_succ less))
    have beyond : ¬ (2 ^ 54 - 1) * (den * 2 ^ top) ≤ num := by omega
    simp only [beyond, iff_false]
    split_ifs with full
    · exact ofParts?_ne_none (by decide) (by omega) (.inr (le_refl _))
    · exact ofParts?_ne_none (by omega) (by omega) (normal.imp_right And.right)
  · have doubled : den * 2 ^ (top + 1) = 2 * (den * 2 ^ top) := by rw [Nat.pow_succ', Nat.mul_left_comm]
    have half : roundHalfEven num (den * 2 ^ (top + 1)) = 2 ^ 53 ↔ (2 ^ 54 - 1) * (den * 2 ^ top) ≤ num := by
      refine (roundHalfEven_eq_succ_iff (k := 2 ^ 53 - 1) (by decide) below).trans ?_
      rw [doubled]
      omega
    rw [← half]
    split_ifs with full
    · simp only [full, iff_true]
      exact ofParts?_eq_none (by omega)
    · simp only [full, iff_false]
      exact ofParts?_ne_none (by omega) (by omega) (normal.imp_right And.right)
  · have whole : 2 ^ 52 * 2 ^ scale * den ≤ num :=
      (Nat.le_div_iff_mul_le positive).mp (normal.resolve_left (by omega)).1
    have power : 4 * (den * 2 ^ top) ≤ den * 2 ^ scale := by
      have further : 2 ^ (top + 2) ≤ 2 ^ scale := Nat.pow_le_pow_right two_pos more
      rw [Nat.pow_add, Nat.mul_comm] at further
      rw [Nat.mul_left_comm]
      exact Nat.mul_le_mul_left den further
    have beyond : (2 ^ 54 - 1) * (den * 2 ^ top) ≤ num := by
      rw [Nat.mul_assoc, Nat.mul_comm _ den] at whole
      omega
    simp only [beyond, iff_true]
    split_ifs
    · exact ofParts?_eq_none (by omega)
    · exact ofParts?_eq_none (by omega)

/-- Of all magnitudes, the nearest one is off from the exact ratio by no more than any other. -/
theorem nearest?_le (positive : 0 < den) (found : nearest? num den = some m) (other : Magnitude) :
    |(m.units : ℚ) - num / den| ≤ |(other.units : ℚ) - num / den| := by
  by_cases same : other.units = m.units
  · rw [same]
  · rcases nearest?_spec positive found same with nearer | ⟨tie, -⟩
    · exact nearer.le
    · exact tie.le

end Magnitude

/-! ## Binary64 numbers -/

namespace Binary64

/-- The significand of a finite number. -/
def significand : Binary64 → Nat
  | .finite _ m => m.significand
  | _ => 0

/-- A finite number is nearest to a rational one if any other is farther from it, or as far with an odd
    significand where its own is even. -/
def IsNearest (x : Binary64) (q : ℚ) : Prop :=
  ∃ v, x.rational? = some v ∧ ∀ (y : Binary64) (w : ℚ), y.rational? = some w → w ≠ v →
    |v - q| < |w - q| ∨ |v - q| = |w - q| ∧ Even x.significand ∧ ¬ Even y.significand

/-- There is one nearest number, but for the sign of a zero. -/
theorem IsNearest.unique {x y : Binary64} {q : ℚ} (first : x.IsNearest q) (second : y.IsNearest q) :
    x.rational? = y.rational? := by
  obtain ⟨v, denoted, nearer⟩ := first
  obtain ⟨w, other, nearest⟩ := second
  rw [denoted, other]
  by_contra differs
  rcases nearer y w other (fun same => differs (by rw [same])) with less | ⟨tie, even, odd⟩
  · rcases nearest x v denoted (fun same => differs (by rw [same])) with more | ⟨tie, -⟩
    · exact lt_asymm less more
    · exact less.ne tie.symm
  · rcases nearest x v denoted (fun same => differs (by rw [same])) with more | ⟨-, also, -⟩
    · exact more.ne tie.symm
    · exact odd also

theorem rational?_neg (x : Binary64) : x.neg.rational? = x.rational?.map (- ·) := by
  cases x with
  | finite negative m => cases negative <;> simp [neg, rational?]
  | _ => rfl

theorem significand_neg (x : Binary64) : x.neg.significand = x.significand := by
  cases x <;> rfl

theorem IsNearest.neg {x : Binary64} {q : ℚ} (nearest : x.IsNearest q) : x.neg.IsNearest (-q) := by
  obtain ⟨v, denoted, nearer⟩ := nearest
  refine ⟨-v, by rw [rational?_neg, denoted]; rfl, fun y w other differs => ?_⟩
  have mirrored : y.neg.rational? = some (-w) := by rw [rational?_neg, other]; rfl
  have distance (u : ℚ) : |u - -q| = |-u - q| := by
    rw [abs_sub_comm, neg_sub_left, abs_neg, ← neg_add', abs_neg, add_comm]
  rw [significand_neg, ← y.significand_neg, distance, distance, neg_neg]
  exact nearer y.neg (-w) mirrored fun same => differs (by rw [← same, neg_neg])

/-- The nearest magnitude is a nearest number: of the negative ones, none is nearer than zero. -/
theorem isNearest_of_nearest? {num den : Nat} {m : Magnitude} (positive : 0 < den)
    (found : Magnitude.nearest? num den = some m) :
    (finite false m).IsNearest (num / den / Magnitude.unitsPerOne) := by
  obtain ⟨one, unit⟩ : ∃ one, one = Magnitude.unitsPerOne := ⟨_, rfl⟩
  have denotes (k : Magnitude) : k.rational = k.units / one := unit ▸ k.rational_eq
  have above : (0 : ℚ) < one := Nat.cast_pos.mpr (unit ▸ Magnitude.unitsPerOne_pos)
  have exact : (0 : ℚ) ≤ num / den := div_nonneg (Nat.cast_nonneg _) (Nat.cast_nonneg _)
  have distance (u : ℚ) : |u / one - num / den / one| = |u - num / den| / one := by
    rw [← sub_div, abs_div, abs_of_pos above]
  rw [← unit]
  refine ⟨m.rational, rfl, fun y w other differs => ?_⟩
  cases y with
  | finite negative k =>
    by_cases below : negative = true ∧ k.units ≠ 0
    · obtain ⟨rfl, nonzero⟩ := below
      obtain rfl : -k.rational = w := Option.some.inj other
      have size : (0 : ℚ) < k.units := Nat.cast_pos.mpr (Nat.pos_of_ne_zero nonzero)
      have nothing : |((Magnitude.zero.units : ℕ) : ℚ) - num / den| = num / den := by
        simp [Magnitude.zero, Magnitude.units, abs_of_nonneg exact]
      left
      rw [denotes, denotes, ← neg_div, distance, distance, div_lt_div_iff_of_pos_right above]
      calc |(m.units : ℚ) - num / den| ≤ |((Magnitude.zero.units : ℕ) : ℚ) - num / den| :=
            Magnitude.nearest?_le positive found .zero
        _ = num / den := nothing
        _ < k.units + num / den := lt_add_of_pos_left _ size
        _ = |-(k.units : ℚ) - num / den| := by
            rw [← neg_add', abs_neg, abs_of_pos (add_pos_of_pos_of_nonneg size exact)]
    · have size : w = k.units / one := by
        rw [← denotes]
        cases negative with
        | false => exact (Option.some.inj other).symm
        | true =>
          have nothing : k.units = 0 := by simpa using below
          rw [← Option.some.inj other, denotes, nothing]
          simp
      have differ : k.units ≠ m.units := fun same => differs (by rw [size, denotes, same])
      rw [size, denotes, distance, distance, div_lt_div_iff_of_pos_right above, div_left_inj' above.ne']
      exact Magnitude.nearest?_spec positive found differ
  | _ => cases other

end Binary64

end CallByValue
