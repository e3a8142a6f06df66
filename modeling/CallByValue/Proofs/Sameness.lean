import CallByValue.Surface
import CallByValue.Proofs.Rounding

/-!
# Sameness of data

Data are compared by what their numbers denote, of whatever kind these are, and
expressions part by part. Sameness is an equivalence, and expressions that are
the same are equally deep and kept from being written by the same obstacle.
-/

namespace CallByValue

/-! ## Numbers by what they denote -/

/-- What a number denotes: so many units of `2 ^ -1074`, an infinity, or nothing. -/
inductive Denoted where
  | units (n : Int)
  | infinite (negative : Bool)
  | nothing
deriving DecidableEq

theorem Binary64.natAbs_signed (negative : Bool) (units : Nat) : (signed negative units).natAbs = units := by
  cases negative <;> simp [signed]

def Binary64.denoted : Binary64 → Denoted
  | .finite negative m => .units (signed negative m.units)
  | .infinite negative => .infinite negative
  | .nan _ => .nothing

theorem Magnitude.unitsPerOne_pos : 0 < unitsPerOne := by
  obtain ⟨bits, count⟩ : ∃ bits, bits = 1074 := ⟨_, rfl⟩
  rw [Decimal.unitsPerOne_eq count]
  exact Nat.two_pow_pos bits

theorem Magnitude.units_lt (m : Magnitude) : m.units < Nat.pow 10 digitLimit := by
  have bits : m.units < 2 ^ (53 + m.scale) := by
    rw [Nat.pow_add]
    exact Nat.mul_lt_mul_of_pos_right m.significand_lt (Nat.two_pow_pos m.scale)
  have digits : 2 ^ (53 + m.scale) ≤ 10 ^ (53 + m.scale) := Nat.pow_le_pow_left (by decide) _
  have few : 53 + m.scale ≤ digitLimit := by
    have bounded := m.scale_le
    unfold digitLimit
    omega
  generalize digitLimit = limit at few
  exact Nat.lt_of_lt_of_le bits (digits.trans (Nat.pow_le_pow_right (by decide) few))

/-- An integer below the number of digits that are allowed can be written. -/
theorem numeralObstacle?_of_lt {n : Int} (small : n.natAbs < digitLimit) : numeralObstacle? n = none := by
  unfold numeralObstacle?
  generalize digitLimit = limit at small ⊢
  exact if_pos (small.trans (Nat.lt_pow_self (by decide)))

namespace Number
open Magnitude

def denoted : Number → Denoted
  | .integer n => .units (n * unitsPerOne)
  | .float x => x.denoted

/-- Only NaNs denote nothing. -/
theorem exists_of_denoted_eq_nothing {a : Number} (nothing : a.denoted = .nothing) :
    ∃ mark, a = .float (.nan mark) := by
  cases a with
  | integer n => cases nothing
  | float x =>
    cases x with
    | nan mark => exact ⟨mark, rfl⟩
    | _ => cases nothing

/-- Numbers are equal if they denote the same; what denotes nothing equals nothing. -/
theorem equals_iff {a b : Number} : a.equals b = true ↔ a.denoted = b.denoted ∧ a.denoted ≠ .nothing := by
  cases a with
  | integer n =>
    cases b with
    | integer m =>
      have positive := unitsPerOne_pos
      simp only [equals, denoted]
      generalize unitsPerOne = scale at positive ⊢
      simp [positive.ne']
    | float y =>
      cases y <;> simp only [equals, denoted, Binary64.equalsInt, Binary64.denoted]
      all_goals
        generalize unitsPerOne = scale
        simp [eq_comm]
  | float x =>
    cases b with
    | integer m =>
      cases x <;> simp only [equals, denoted, Binary64.equalsInt, Binary64.denoted]
      all_goals
        generalize unitsPerOne = scale
        simp
    | float y => cases x <;> cases y <;> simp [equals, denoted, Binary64.equals, Binary64.denoted]

theorem same_refl (a : Number) : a.same a = true := by
  simp [same]

/-- Beside a number that denotes something, to be the same is to denote the same. -/
theorem same_iff {a : Number} (something : a.denoted ≠ .nothing) (b : Number) :
    a.same b = true ↔ a.denoted = b.denoted := by
  simp only [same, Bool.or_eq_true, decide_eq_true_eq, equals_iff]
  constructor
  · rintro (⟨denoted, _⟩ | rfl)
    · exact denoted
    · rfl
  · exact fun denoted => .inl ⟨denoted, something⟩

theorem eq_of_same {a b : Number} (nothing : a.denoted = .nothing) (same : a.same b = true) : a = b := by
  simpa [Number.same, equals_iff, nothing] using same

theorem denoted_eq_of_same {a b : Number} (same : a.same b = true) : a.denoted = b.denoted := by
  by_cases nothing : a.denoted = .nothing
  · rw [eq_of_same nothing same]
  · exact (same_iff nothing b).mp same

theorem same_congr {a b : Number} (same : a.same b = true) (c : Number) : a.same c = b.same c := by
  by_cases nothing : a.denoted = .nothing
  · rw [eq_of_same nothing same]
  · have denoted := denoted_eq_of_same same
    rw [Bool.eq_iff_iff, same_iff nothing, same_iff (denoted ▸ nothing), denoted]

/-- An integer that some binary64 number equals is short enough to be written. -/
theorem numeralObstacle?_of_denoted {n : Int} {x : Binary64} (same : denoted (.integer n) = x.denoted) :
    numeralObstacle? n = none := by
  cases x with
  | finite negative m =>
    have units : n.natAbs * unitsPerOne = m.units := by
      have sizes := congrArg Int.natAbs (Denoted.units.inj same)
      rwa [Int.natAbs_mul, Int.natAbs_natCast, Binary64.natAbs_signed] at sizes
    have small : n.natAbs ≤ m.units := units ▸ Nat.le_mul_of_pos_right _ unitsPerOne_pos
    exact if_pos (Nat.lt_of_le_of_lt small m.units_lt)
  | infinite negative => cases same
  | nan mark => cases same

end Number

/-! ## Atoms -/

namespace Atom

theorem same_refl (a : Atom) : a.same a = true := by
  unfold same
  cases a.numeric? with
  | none => simp
  | some n => exact n.same_refl

/-- Atoms that are the same count as the same number, or are one text. -/
theorem same_cases {a b : Atom} (same : a.same b = true) :
    (∃ m n, a.numeric? = some m ∧ b.numeric? = some n ∧ m.same n = true) ∨ a = b := by
  unfold Atom.same at same
  cases left : a.numeric? with
  | none =>
    cases right : b.numeric? with
    | none => exact .inr (by simpa [left, right] using same)
    | some n => simp [left, right] at same
  | some m =>
    cases right : b.numeric? with
    | none => simp [left, right] at same
    | some n => exact .inl ⟨m, n, rfl, rfl, by simpa [left, right] using same⟩

theorem same_congr {a b : Atom} (same : a.same b = true) (c : Atom) : a.same c = b.same c := by
  rcases same_cases same with ⟨m, n, left, right, numbers⟩ | rfl
  · unfold Atom.same
    rw [left, right]
    cases c.numeric? with
    | none => rfl
    | some k => exact Number.same_congr numbers k
  · rfl

theorem obstacle?_of_numeric {a : Atom} {n : Number} (counts : a.numeric? = some n) :
    a.obstacle? = (Atom.number n).obstacle? := by
  cases a with
  | boolean b =>
    cases counts
    change none = numeralObstacle? _
    cases b <;> exact (numeralObstacle?_of_lt (by decide)).symm
  | number m => cases counts; rfl
  | text t => cases counts

/-- Of two atoms that are the same both can be written, or neither. -/
theorem obstacle?_eq_of_same {a b : Atom} (same : a.same b = true) : a.obstacle? = b.obstacle? := by
  rcases same_cases same with ⟨m, n, left, right, numbers⟩ | rfl
  · rw [obstacle?_of_numeric left, obstacle?_of_numeric right]
    have denoted := Number.denoted_eq_of_same numbers
    cases m with
    | integer i =>
      cases n with
      | integer j =>
        have equal : i = j := by simpa [Number.same, Number.equals] using numbers
        rw [equal]
      | float y => exact Number.numeralObstacle?_of_denoted denoted
    | float x =>
      cases n with
      | integer j => exact (Number.numeralObstacle?_of_denoted denoted.symm).symm
      | float y => rfl
  · rfl

end Atom

/-! ## Expressions -/

namespace Expr

mutual

theorem same_refl : ∀ e : Expr, e.same e = true
  | .literal a => a.same_refl
  | .var x => by simp [same]
  | .binary g a b => by simp [same, same_refl a, same_refl b]
  | .unary g a => by simp [same, same_refl a]
  | .conditional a b c => by simp [same, same_refl a, same_refl b, same_refl c]
  | .lambda ps a => by simp [same, same_refl a]
  | .apply f as => by simp [same, same_refl f, sameAll_refl as]
  | .letIn bs a => by simp [same, sameBindings_refl bs, same_refl a]
  | .letRec bs a => by simp [same, sameBindings_refl bs, same_refl a]
  | .sequence a as => by simp [same, same_refl a, sameAll_refl as]
  | .fix a => by simp [same, same_refl a]

theorem sameAll_refl : ∀ es : List Expr, sameAll es es = true
  | [] => rfl
  | e :: es => by simp [sameAll, same_refl e, sameAll_refl es]

theorem sameBindings_refl : ∀ bs : List (Text × Expr), sameBindings bs bs = true
  | [] => rfl
  | (x, e) :: bs => by simp [sameBindings, same_refl e, sameBindings_refl bs]

end

mutual

/-- Expressions that are the same are the same as the same others. -/
theorem same_congr : ∀ {e f : Expr}, e.same f = true → ∀ g : Expr, e.same g = f.same g
  | .literal a, f, h, g => by
    cases f <;> simp only [same, Bool.false_eq_true] at h
    cases g <;> simp [same, Atom.same_congr h]
  | .var x, f, h, g => by
    cases f <;> simp only [same, Bool.false_eq_true, decide_eq_true_eq] at h
    subst h
    rfl
  | .binary s a b, f, h, g => by
    cases f <;> simp only [same, Bool.false_eq_true, Bool.and_eq_true, decide_eq_true_eq] at h
    obtain ⟨⟨rfl, ha⟩, hb⟩ := h
    cases g <;> simp [same, same_congr ha, same_congr hb]
  | .unary s a, f, h, g => by
    cases f <;> simp only [same, Bool.false_eq_true, Bool.and_eq_true, decide_eq_true_eq] at h
    obtain ⟨rfl, ha⟩ := h
    cases g <;> simp [same, same_congr ha]
  | .conditional a b c, f, h, g => by
    cases f <;> simp only [same, Bool.false_eq_true, Bool.and_eq_true] at h
    obtain ⟨⟨ha, hb⟩, hc⟩ := h
    cases g <;> simp [same, same_congr ha, same_congr hb, same_congr hc]
  | .lambda ps a, f, h, g => by
    cases f <;> simp only [same, Bool.false_eq_true, Bool.and_eq_true, decide_eq_true_eq] at h
    obtain ⟨rfl, ha⟩ := h
    cases g <;> simp [same, same_congr ha]
  | .apply a as, f, h, g => by
    cases f <;> simp only [same, Bool.false_eq_true, Bool.and_eq_true] at h
    obtain ⟨ha, has⟩ := h
    cases g <;> simp [same, same_congr ha, sameAll_congr has]
  | .letIn bs a, f, h, g => by
    cases f <;> simp only [same, Bool.false_eq_true, Bool.and_eq_true] at h
    obtain ⟨hbs, ha⟩ := h
    cases g <;> simp [same, sameBindings_congr hbs, same_congr ha]
  | .letRec bs a, f, h, g => by
    cases f <;> simp only [same, Bool.false_eq_true, Bool.and_eq_true] at h
    obtain ⟨hbs, ha⟩ := h
    cases g <;> simp [same, sameBindings_congr hbs, same_congr ha]
  | .sequence a as, f, h, g => by
    cases f <;> simp only [same, Bool.false_eq_true, Bool.and_eq_true] at h
    obtain ⟨ha, has⟩ := h
    cases g <;> simp [same, same_congr ha, sameAll_congr has]
  | .fix a, f, h, g => by
    cases f <;> simp only [same, Bool.false_eq_true] at h
    cases g <;> simp [same, same_congr h]

theorem sameAll_congr : ∀ {es fs : List Expr}, sameAll es fs = true → ∀ gs, sameAll es gs = sameAll fs gs
  | [], fs, h, gs => by
    cases fs <;> simp only [sameAll, Bool.false_eq_true] at h
    rfl
  | e :: es, fs, h, gs => by
    cases fs <;> simp only [sameAll, Bool.false_eq_true, Bool.and_eq_true] at h
    obtain ⟨he, hes⟩ := h
    cases gs <;> simp [sameAll, same_congr he, sameAll_congr hes]

theorem sameBindings_congr : ∀ {bs cs : List (Text × Expr)}, sameBindings bs cs = true →
    ∀ ds, sameBindings bs ds = sameBindings cs ds
  | [], cs, h, ds => by
    cases cs <;> simp only [sameBindings, Bool.false_eq_true] at h
    rfl
  | (x, e) :: bs, cs, h, ds => by
    cases cs <;> simp only [sameBindings, Bool.false_eq_true, Bool.and_eq_true, decide_eq_true_eq] at h
    obtain ⟨⟨rfl, he⟩, hbs⟩ := h
    cases ds <;> simp [sameBindings, same_congr he, sameBindings_congr hbs]

end

theorem same_symm {e f : Expr} (same : e.same f = true) : f.same e = true := by
  rw [← same_congr same, same_refl]

/-- Comparing comes out the same for expressions that are the same. -/
theorem same_eq_of_same {e f e' f' : Expr} (first : e.same f = true) (second : e'.same f' = true) :
    e.same e' = f.same f' := by
  rw [same_congr first, Bool.eq_iff_iff]
  constructor
  · intro h
    exact same_symm (same_congr second f ▸ same_symm h)
  · intro h
    exact same_symm ((same_congr second f).symm ▸ same_symm h)

theorem literalFrames_eq_of_same {a b : Atom} (same : a.same b = true) : literalFrames a = literalFrames b := by
  rcases Atom.same_cases same with ⟨m, n, left, right, _⟩ | rfl
  · cases a <;> cases b <;> simp_all [Atom.numeric?, literalFrames]
  · rfl

mutual

/-- Expressions that are the same are equally deep and meet the same obstacle. -/
theorem shape_eq_of_same : ∀ {e f : Expr}, e.same f = true →
    e.depth = f.depth ∧ ∀ frames, e.obstacleWithin? frames = f.obstacleWithin? frames
  | .literal a, f, h => by
    cases f <;> simp only [same, Bool.false_eq_true] at h
    simp [depth, obstacleWithin?, literalFrames_eq_of_same h, Atom.obstacle?_eq_of_same h]
  | .var x, f, h => by
    cases f <;> simp only [same, Bool.false_eq_true] at h
    simp [depth, obstacleWithin?]
  | .binary s a b, f, h => by
    cases f <;> simp only [same, Bool.false_eq_true, Bool.and_eq_true] at h
    simp [depth, obstacleWithin?, shape_eq_of_same h.1.2, shape_eq_of_same h.2]
  | .unary s a, f, h => by
    cases f <;> simp only [same, Bool.false_eq_true, Bool.and_eq_true] at h
    simp [depth, obstacleWithin?, shape_eq_of_same h.2]
  | .conditional a b c, f, h => by
    cases f <;> simp only [same, Bool.false_eq_true, Bool.and_eq_true] at h
    simp [depth, obstacleWithin?, shape_eq_of_same h.1.1, shape_eq_of_same h.1.2, shape_eq_of_same h.2]
  | .lambda ps a, f, h => by
    cases f <;> simp only [same, Bool.false_eq_true, Bool.and_eq_true] at h
    simp [depth, obstacleWithin?, shape_eq_of_same h.2]
  | .apply a as, f, h => by
    cases f <;> simp only [same, Bool.false_eq_true, Bool.and_eq_true] at h
    simp [depth, obstacleWithin?, shape_eq_of_same h.1, shape_eq_of_sameAll h.2]
  | .letIn bs a, f, h => by
    cases f <;> simp only [same, Bool.false_eq_true, Bool.and_eq_true] at h
    simp [depth, obstacleWithin?, shape_eq_of_sameBindings h.1, shape_eq_of_same h.2]
  | .letRec bs a, f, h => by
    cases f <;> simp only [same, Bool.false_eq_true, Bool.and_eq_true] at h
    simp [depth, obstacleWithin?, shape_eq_of_sameBindings h.1, shape_eq_of_same h.2]
  | .sequence a as, f, h => by
    cases f <;> simp only [same, Bool.false_eq_true, Bool.and_eq_true] at h
    simp [depth, obstacleWithin?, shape_eq_of_same h.1, shape_eq_of_sameAll h.2]
  | .fix a, f, h => by
    cases f <;> simp only [same, Bool.false_eq_true] at h
    simp [depth, obstacleWithin?, shape_eq_of_same h]

theorem shape_eq_of_sameAll : ∀ {es fs : List Expr}, sameAll es fs = true →
    depthOfAll es = depthOfAll fs ∧ ∀ frames, obstacleInAll? frames es = obstacleInAll? frames fs
  | [], fs, h => by
    cases fs <;> simp only [sameAll, Bool.false_eq_true] at h
    simp
  | e :: es, fs, h => by
    cases fs <;> simp only [sameAll, Bool.false_eq_true, Bool.and_eq_true] at h
    simp [depthOfAll, obstacleInAll?, shape_eq_of_same h.1, shape_eq_of_sameAll h.2]

theorem shape_eq_of_sameBindings : ∀ {bs cs : List (Text × Expr)}, sameBindings bs cs = true →
    depthOfBindings bs = depthOfBindings cs ∧ ∀ frames, obstacleInBindings? frames bs = obstacleInBindings? frames cs
  | [], cs, h => by
    cases cs <;> simp only [sameBindings, Bool.false_eq_true] at h
    simp
  | (x, e) :: bs, cs, h => by
    cases cs <;> simp only [sameBindings, Bool.false_eq_true, Bool.and_eq_true] at h
    simp [depthOfBindings, obstacleInBindings?, shape_eq_of_same h.1.2, shape_eq_of_sameBindings h.2]

end

end Expr

end CallByValue
