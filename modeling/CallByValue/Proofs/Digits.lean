import CallByValue.Text
import Mathlib.Tactic.IntervalCases
import Mathlib.Tactic.Ring

/-!
# Decimal digits

A natural number is written in digits that denote it again, and without a zero
in front that could be left out.
-/

namespace CallByValue.Text

/-- Nothing but decimal digits. -/
def Digits (t : Text) : Prop := ∀ c ∈ t, c.IsDigit

theorem Digits.append {s t : Text} (left : Digits s) (right : Digits t) : Digits (s ++ t) :=
  List.forall_mem_append.mpr ⟨left, right⟩

theorem Digits.take {t : Text} (digits : Digits t) (n : Nat) : Digits (t.take n) :=
  fun c member => digits c (List.mem_of_mem_take member)

theorem Digits.drop {t : Text} (digits : Digits t) (n : Nat) : Digits (t.drop n) :=
  fun c member => digits c (List.mem_of_mem_drop member)

theorem digits_zeros (n : Nat) : Digits (List.replicate n (CodePoint.ofChar '0')) := by
  intro c member
  rw [List.eq_of_mem_replicate member]
  decide

/-! ## What digits denote -/

private theorem foldl_digits (t : Text) (sofar : Nat) :
    t.foldl (fun sofar c => 10 * sofar + (c.val - 48)) sofar = sofar * 10 ^ t.length + toNat t := by
  induction t generalizing sofar with
  | nil => simp [toNat]
  | cons c t ih =>
    rw [toNat, List.foldl_cons, List.foldl_cons, ih, ih (10 * 0 + _), List.length_cons, Nat.pow_succ]
    ring

theorem toNat_append (s t : Text) : toNat (s ++ t) = toNat s * 10 ^ t.length + toNat t := by
  rw [toNat, List.foldl_append, foldl_digits]
  rfl

theorem toNat_zeros (n : Nat) : toNat (List.replicate n (CodePoint.ofChar '0')) = 0 := by
  induction n with
  | zero => rfl
  | succ n ih =>
    have zero : toNat [CodePoint.ofChar '0'] = 0 := rfl
    rw [List.replicate_succ', toNat_append, ih, zero, Nat.zero_mul]

theorem toNat_lt {t : Text} (digits : Digits t) : toNat t < 10 ^ t.length := by
  induction t with
  | nil => exact Nat.one_pos
  | cons c t ih =>
    obtain ⟨first, others⟩ := List.forall_mem_cons.mp digits
    have leading : toNat [c] ≤ 9 := by
      have value : toNat [c] = c.val - 48 := by simp [toNat]
      have bound := first.2
      omega
    have rest := ih others
    calc toNat (c :: t) = toNat [c] * 10 ^ t.length + toNat t := toNat_append [c] t
      _ < toNat [c] * 10 ^ t.length + 10 ^ t.length := Nat.add_lt_add_left rest _
      _ = (toNat [c] + 1) * 10 ^ t.length := (Nat.succ_mul ..).symm
      _ ≤ 10 * 10 ^ t.length := Nat.mul_le_mul_right _ (by omega)
      _ = 10 ^ (c :: t).length := (Nat.pow_succ' ..).symm

theorem toNat_lt_of_length {t : Text} (digits : Digits t) {k : Nat} (short : t.length ≤ k) :
    toNat t < Nat.pow 10 k :=
  lt_of_lt_of_le (toNat_lt digits) (Nat.pow_le_pow_right (by decide) short)

/-! ## The digits of a number -/

theorem ofNat_ne_nil (n : Nat) : ofNat n ≠ [] := by
  intro empty
  exact Nat.toDigits_ne_nil (List.map_eq_nil_iff.mp empty)

theorem digits_ofNat (n : Nat) : Digits (ofNat n) := by
  intro c member
  obtain ⟨d, listed, rfl⟩ := List.mem_map.mp member
  have digit : d.isDigit = true := Nat.isDigit_of_mem_toDigits (by decide) (by decide) listed
  rw [Char.isDigit, Bool.and_eq_true, decide_eq_true_eq, decide_eq_true_eq] at digit
  exact ⟨UInt32.le_iff_toNat_le.mp digit.1, UInt32.le_iff_toNat_le.mp digit.2⟩

theorem toNat_ofNat (n : Nat) : toNat (ofNat n) = n := by
  have denoted : toNat (ofNat n) = Nat.ofDigitChars 10 (Nat.toDigits 10 n) 0 := by
    rw [toNat, ofNat, List.foldl_map, Nat.ofDigitChars_eq_foldl]
    rfl
  rw [denoted, Nat.ofDigitChars_toDigits (by decide) (by decide)]

theorem length_ofNat_le_iff {n k : Nat} (positive : 0 < k) : (ofNat n).length ≤ k ↔ n < Nat.pow 10 k := by
  rw [ofNat, List.length_map]
  exact Nat.length_toDigits_le_iff (by decide) positive

theorem ofNat_of_lt {n : Nat} (small : n < 10) : ofNat n = [CodePoint.ofChar n.digitChar] := by
  rw [ofNat, Nat.toDigits_of_lt_base small, List.map_singleton]

theorem ofNat_of_le {n : Nat} (large : 10 ≤ n) : ofNat n = ofNat (n / 10) ++ ofNat (n % 10) := by
  rw [ofNat_of_lt (Nat.mod_lt n (by decide)), ofNat, Nat.toDigits_of_base_le (by decide) large, List.map_append]
  rfl

/-- The first digit of a number other than zero is none that could be left out. -/
theorem head_ofNat_ne_zero {n : Nat} (nonzero : n ≠ 0) : (ofNat n).head? ≠ some (CodePoint.ofChar '0') := by
  induction n using Nat.strong_induction_on with
  | _ n ih =>
    by_cases small : n < 10
    · rw [ofNat_of_lt small]
      interval_cases n
      · exact absurd rfl nonzero
      all_goals decide
    · have front : n / 10 ≠ 0 := by omega
      obtain ⟨first, rest, split⟩ := List.exists_cons_of_ne_nil (ofNat_ne_nil (n / 10))
      have notZero := ih (n / 10) (by omega) front
      rw [ofNat_of_le (not_lt.mp small), split]
      rwa [split] at notZero

end CallByValue.Text
