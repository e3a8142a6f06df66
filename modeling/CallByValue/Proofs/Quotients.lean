import CallByValue.Proofs.Nearest
import CallByValue.Proofs.Soundness
import Mathlib.Tactic.FieldSimp

/-!
# Quotients of integers

The quotient of two integers is rounded once, from its exact value, so it does not
matter whether the integers themselves could be rounded to floats.
-/

namespace CallByValue

namespace Binary64

variable {a b : Int}

/-- A quotient is too large from half a step beyond the largest finite number on. -/
theorem ofQuotient?_eq_none_iff (nonzero : b ≠ 0) :
    ofQuotient? a b = none ↔ (2 : ℚ) ^ 1024 - 2 ^ 970 ≤ |(a : ℚ) / b| := by
  obtain ⟨bits, count⟩ : ∃ bits, bits = 1074 := ⟨_, rfl⟩
  obtain ⟨low, rest⟩ : ∃ low, low = 970 := ⟨_, rfl⟩
  have divisor : 0 < b.natAbs := Int.natAbs_pos.mpr nonzero
  have divisor_cast : (0 : ℚ) < b.natAbs := Nat.cast_pos.mpr divisor
  have power : 0 < 2 ^ bits := Nat.two_pow_pos bits
  have high : (2 : ℚ) ^ 1024 = 2 ^ low * 2 ^ 54 := by rw [← pow_add, rest]
  have size : |(a : ℚ) / b| = a.natAbs / b.natAbs := by
    rw [abs_div, Nat.cast_natAbs, Nat.cast_natAbs, Int.cast_abs, Int.cast_abs]
  have bound : Magnitude.nearest? (a.natAbs * Magnitude.unitsPerOne) b.natAbs = none ↔
      (2 ^ 54 - 1) * (b.natAbs * 2 ^ low) ≤ a.natAbs := by
    rw [Magnitude.nearest?_eq_none_iff divisor (by omega : low + bits = 2044), Decimal.unitsPerOne_eq count,
      Nat.pow_add, ← Nat.mul_assoc b.natAbs, ← Nat.mul_assoc (2 ^ 54 - 1)]
    exact Nat.mul_le_mul_right_iff power
  have multiple : ((2 : ℚ) ^ low * 2 ^ 54 - 2 ^ low) * b.natAbs =
      (((2 ^ 54 - 1) * (b.natAbs * 2 ^ low) : ℕ) : ℚ) := by
    push_cast
    ring
  rw [ofQuotient?, Option.map_eq_none_iff, bound, size, high, ← rest, le_div_iff₀ divisor_cast, multiple,
    Nat.cast_le]

theorem quotient_eq (a b : Int) :
    (a : ℚ) / b = if ((a < 0 : Bool) != (b < 0 : Bool)) then -(a.natAbs / b.natAbs : ℚ) else a.natAbs / b.natAbs := by
  have size (n : Int) : (n.natAbs : ℚ) = if n < 0 then -(n : ℚ) else n := by
    rw [Nat.cast_natAbs, Int.cast_abs]
    split_ifs with below
    · exact abs_of_neg (Int.cast_lt_zero.mpr below)
    · exact abs_of_nonneg (Int.cast_nonneg (not_lt.mp below))
  rw [size, size]
  by_cases negative : a < 0 <;> by_cases other : b < 0 <;> simp [negative, other, neg_div, div_neg]

/-- What is not too large is the nearest number to the exact quotient, with the sign of that. -/
theorem isNearest_of_ofQuotient? {x : Binary64} (nonzero : b ≠ 0) (found : ofQuotient? a b = some x) :
    x.IsNearest (a / b) ∧ ∃ m, x = .finite ((a < 0) != (b < 0)) m := by
  obtain ⟨m, nearest, rfl⟩ := Option.map_eq_some_iff.mp found
  have size := isNearest_of_nearest? (Int.natAbs_pos.mpr nonzero) nearest
  have exact : ((a.natAbs * Magnitude.unitsPerOne : ℕ) : ℚ) / b.natAbs / Magnitude.unitsPerOne =
      a.natAbs / b.natAbs := by
    have positive := Magnitude.unitsPerOne_pos
    generalize Magnitude.unitsPerOne = one at positive ⊢
    rw [Nat.cast_mul, mul_div_right_comm, mul_div_cancel_right₀ _ (Nat.cast_ne_zero.mpr positive.ne')]
  rw [exact] at size
  refine ⟨?_, m, rfl⟩
  rw [quotient_eq]
  split_ifs with negative
  · rw [negative]
    exact size.neg
  · rw [Bool.not_eq_true] at negative
    rw [negative]
    exact size

end Binary64

/-! ## Division -/

section
variable {channel : Channel} {levels : Nat} {left right : Expr} {env : Env} {now mid last : Progress} {a b : Int}

/-- What dividing one integer by another comes to. -/
def Outcome.ofQuotient (a b : Int) : Outcome Value :=
  if b = 0 then .failure .divisionByZero
  else
    match Binary64.ofQuotient? a b with
    | none => .failure (.overflow BinaryOperator.div.glyph)
    | some x => .success (.atom (.number (.float x)))

theorem apply_div (mark levels : Nat) (a b : Int) :
    BinaryOperator.div.apply mark levels (.atom (.number (.integer a))) (.atom (.number (.integer b))) =
      .ofQuotient a b := by
  simp only [BinaryOperator.apply, BinaryOperator.arithmetic?, Value.number?, Number.div, Number.isZero,
    Number.ratio, Outcome.ofQuotient, decide_eq_true_eq]
  by_cases zero : b = 0
  · simp only [if_pos zero]
  · simp only [if_neg zero]
    cases Binary64.ofQuotient? a b <;> rfl

theorem evaluate_div
    (first : evaluate channel levels left env now = (.success (.atom (.number (.integer a))), mid))
    (second : evaluate channel levels right env mid = (.success (.atom (.number (.integer b))), last)) :
    evaluate channel (levels + 1) (.binary BinaryOperator.div.glyph left right) env now =
      (.ofQuotient a b, last.tick) := by
  rw [evaluate_binary, BinaryOperator.ofGlyph?_glyph]
  change (evaluate channel levels left env >>= fun a => evaluate channel levels right env >>= fun b =>
    Eval.operate .div levels a b) now = _
  rw [Eval.bind_of_success first, Eval.bind_of_success second, Eval.operate_apply, apply_div]

/-- Integers are divided however large they are: only a divisor of zero fails as such, only a quotient that is too
    large to be rounded to a finite number fails as an overflow, and any other is rounded to the nearest number. -/
theorem evaluate_quotient
    (first : evaluate channel levels left env now = (.success (.atom (.number (.integer a))), mid))
    (second : evaluate channel levels right env mid = (.success (.atom (.number (.integer b))), last)) :
    ∃ outcome, evaluate channel (levels + 1) (.binary BinaryOperator.div.glyph left right) env now =
        (outcome, last.tick) ∧
      (outcome = .failure .divisionByZero ↔ b = 0) ∧
      (outcome = .failure (.overflow BinaryOperator.div.glyph) ↔
        b ≠ 0 ∧ (2 : ℚ) ^ 1024 - 2 ^ 970 ≤ |(a : ℚ) / b|) ∧
      (b ≠ 0 → |(a : ℚ) / b| < 2 ^ 1024 - 2 ^ 970 →
        ∃ m, outcome = .success (.atom (.number (.float (.finite ((a < 0) != (b < 0)) m)))) ∧
          (Binary64.finite ((a < 0) != (b < 0)) m).IsNearest (a / b)) := by
  refine ⟨_, evaluate_div first second, ?_⟩
  by_cases zero : b = 0
  · simp [Outcome.ofQuotient, zero]
  rw [Outcome.ofQuotient, if_neg zero]
  cases found : Binary64.ofQuotient? a b with
  | none =>
    have large := (Binary64.ofQuotient?_eq_none_iff zero).mp found
    refine ⟨⟨nofun, fun none => absurd none zero⟩, ⟨fun _ => ⟨zero, large⟩, fun _ => rfl⟩, fun _ small => ?_⟩
    exact absurd large (not_le.mpr small)
  | some x =>
    obtain ⟨nearest, m, rfl⟩ := Binary64.isNearest_of_ofQuotient? zero found
    refine ⟨⟨nofun, fun none => absurd none zero⟩, ⟨nofun, fun large => ?_⟩, fun _ _ => ⟨m, rfl, nearest⟩⟩
    rw [(Binary64.ofQuotient?_eq_none_iff zero).mpr large.2] at found
    cases found

/-- Two integers that are themselves far too large for a float. -/
theorem evaluate_quotient_half :
    let integer (n : Int) : Atom := .number (.integer n)
    let program (a b : Int) : Expr := .binary (lit "/") (.literal (integer a)) (.literal (integer b))
    let start : Progress := .start .empty
    ∃ m, evaluate .silence 2 (program (10 ^ 400) (-2 * 10 ^ 400)) [] start =
        (.success (.atom (.number (.float (.finite true m)))), start.tick) ∧
      (Binary64.finite true m).IsNearest (-1 / 2) := by
  intro integer program start
  have positive : (0 : Int) < 10 ^ 400 := by positivity
  generalize (10 : Int) ^ 400 = large at *
  obtain ⟨outcome, run, _, _, rounded⟩ := @evaluate_quotient .silence 1 (.literal (integer large))
    (.literal (integer (-2 * large))) [] start start start large (-2 * large) rfl rfl
  have half : (large : ℚ) / (-2 * large : Int) = -1 / 2 := by
    have nonzero : (large : ℚ) ≠ 0 := Int.cast_ne_zero.mpr positive.ne'
    push_cast
    field_simp
  have bound : |(-1 / 2 : ℚ)| < 2 ^ 1024 - 2 ^ 970 := by
    have one : (1 : ℚ) ≤ 2 ^ 970 := one_le_pow₀ one_le_two
    rw [show (2 : ℚ) ^ 1024 = 2 ^ 970 * 2 ^ 54 from pow_add 2 970 54]
    generalize (2 : ℚ) ^ 970 = power at one ⊢
    rw [abs_of_neg (by norm_num)]
    linarith
  have sign : ((large < 0 : Bool) != (-2 * large < 0 : Bool)) = true := by
    have above : ¬ large < 0 := by omega
    have below : -2 * large < 0 := by omega
    simp only [above, below, decide_true, decide_false, Bool.bne_true, Bool.not_false]
  rw [sign, half] at rounded
  obtain ⟨m, rfl, nearest⟩ := rounded (by omega) bound
  exact ⟨m, run, nearest⟩
end

end CallByValue
