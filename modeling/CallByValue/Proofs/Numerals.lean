import CallByValue.JsonTokens
import CallByValue.Proofs.Digits
import CallByValue.Proofs.Rounding
import Mathlib.Data.List.DropRight

/-!
# Numbers are read as they are written

The text of a number is a numeral, scanned to its end and to no more, and the
numeral denotes the number that was written: an integer exactly, a binary64
number because its digits read back as it.
-/

namespace CallByValue.JsonToken.Numeral
open Text

/-! ## Scanning a numeral -/

/-- A text that goes no further with the numeral before it. -/
def Ends (rest : Text) : Prop :=
  ∀ c, rest.head? = some c → ¬ c.IsDigit ∧ c ≠ CodePoint.ofChar '.' ∧ c ≠ CodePoint.ofChar 'e' ∧
    c ≠ CodePoint.ofChar 'E'

/-- The point and the digits behind it. -/
def fractionText (n : Numeral) : Text :=
  if n.fraction = [] then [] else CodePoint.ofChar '.' :: n.fraction

/-- The exponent with its sign. -/
def exponentText (n : Numeral) : Text :=
  if n.exponent = [] then []
  else CodePoint.ofChar 'e' :: CodePoint.ofChar (if n.exponentNegative then '-' else '+') :: n.exponent

/-- A numeral without its sign. -/
def unsignedText (n : Numeral) : Text := n.whole ++ (n.fractionText ++ n.exponentText)

/-- A numeral as it is written. -/
def text (n : Numeral) : Text := (if n.negative then [CodePoint.ofChar '-'] else []) ++ n.unsignedText

/-- A numeral can be written if it has no zeros in front, and no sign without an exponent. -/
structure Standard (n : Numeral) : Prop where
  whole : Digits n.whole
  nonempty : n.whole ≠ []
  leading : n.whole = [CodePoint.ofChar '0'] ∨ n.whole.head? ≠ some (CodePoint.ofChar '0')
  fraction : Digits n.fraction
  exponent : Digits n.exponent
  signed : n.exponent = [] → n.exponentNegative = false

theorem digits_append {t rest : Text} (all : Digits t) (stop : ∀ c, rest.head? = some c → ¬ c.IsDigit) :
    digits (t ++ rest) = t := by
  have none : rest.takeWhile (fun c => decide c.IsDigit) = [] := by
    cases rest with
    | nil => rfl
    | cons c rest => simp [stop c rfl]
  rw [digits, List.takeWhile_append_of_pos fun c member => decide_eq_true (all c member), none, List.append_nil]

theorem scanWhole_append {n : Numeral} (standard : n.Standard) {rest : Text}
    (stop : ∀ c, rest.head? = some c → ¬ c.IsDigit) : scanWhole (n.whole ++ rest) = n.whole := by
  rw [scanWhole, digits_append standard.whole stop]
  cases whole : n.whole with
  | nil => rfl
  | cons d ds =>
    by_cases zero : d = CodePoint.ofChar '0'
    · have alone : ds = [] := by
        rcases standard.leading with single | other
        · rw [whole] at single
          exact (List.cons.inj single).2
        · simp [whole, zero] at other
      simp [zero, alone]
    · simp [zero]

theorem scanFraction_append {n : Numeral} (standard : n.Standard) {rest : Text}
    (stop : ∀ c, rest.head? = some c → ¬ c.IsDigit ∧ c ≠ CodePoint.ofChar '.') :
    scanFraction (n.fractionText ++ rest) = n.fraction := by
  by_cases none : n.fraction = []
  · rw [fractionText, if_pos none, none, List.nil_append]
    cases rest with
    | nil => rfl
    | cons c rest => simp [scanFraction, (stop c rfl).2]
  · rw [fractionText, if_neg none, List.cons_append, scanFraction, if_pos rfl,
      digits_append standard.fraction fun c head => (stop c head).1]

theorem splitSign_sign (negative : Bool) (rest : Text) :
    splitSign (CodePoint.ofChar (if negative then '-' else '+') :: rest) = (some negative, rest) := by
  cases negative <;> rfl

theorem scanExponent_append {n : Numeral} (standard : n.Standard) {rest : Text} (ends : Ends rest) :
    scanExponent (n.exponentText ++ rest) = (n.exponentNegative, n.exponent, n.exponentText.length) := by
  by_cases none : n.exponent = []
  · rw [exponentText, if_pos none, none, standard.signed none, List.nil_append]
    cases rest with
    | nil => rfl
    | cons c rest =>
      obtain ⟨-, -, lower, upper⟩ := ends c rfl
      simp [scanExponent, lower, upper]
  · have read := digits_append standard.exponent fun c head => (ends c head).1
    rw [exponentText, if_neg none]
    simp [scanExponent, splitSign_sign, read, none]

theorem head_exponentText {n : Numeral} {rest : Text} (ends : Ends rest) {c : CodePoint}
    (head : (n.exponentText ++ rest).head? = some c) : ¬ c.IsDigit ∧ c ≠ CodePoint.ofChar '.' := by
  by_cases none : n.exponent = []
  · rw [exponentText, if_pos none, List.nil_append] at head
    obtain ⟨digit, point, -⟩ := ends c head
    exact ⟨digit, point⟩
  · rw [exponentText, if_neg none, List.cons_append, List.head?_cons] at head
    cases head
    decide

theorem head_fractionText {n : Numeral} {rest : Text} (stop : ∀ c, rest.head? = some c → ¬ c.IsDigit)
    {c : CodePoint} (head : (n.fractionText ++ rest).head? = some c) : ¬ c.IsDigit := by
  by_cases none : n.fraction = []
  · rw [fractionText, if_pos none, List.nil_append] at head
    exact stop c head
  · rw [fractionText, if_neg none, List.cons_append, List.head?_cons] at head
    cases head
    decide

theorem length_fractionText (n : Numeral) :
    n.fractionText.length = if n.fraction.isEmpty then 0 else n.fraction.length + 1 := by
  cases fraction : n.fraction <;> simp [fractionText, fraction]

/-- The text behind a numeral is not touched. -/
theorem scan?_append {n : Numeral} (standard : n.Standard) {rest : Text} (ends : Ends rest) :
    scan? (n.text ++ rest) = some (n, n.text.length) := by
  have exponentStops (c : CodePoint) (head : (n.exponentText ++ rest).head? = some c) := head_exponentText ends head
  have fractionStops (c : CodePoint) (head : (n.fractionText ++ (n.exponentText ++ rest)).head? = some c) :=
    head_fractionText (fun c head => (exponentStops c head).1) head
  have sign : ((n.text ++ rest).head? = some (CodePoint.ofChar '-')) ↔ n.negative = true := by
    cases negative : n.negative with
    | true => simp [text, negative]
    | false =>
      obtain ⟨d, ds, split⟩ := List.exists_cons_of_ne_nil standard.nonempty
      have digit : d.IsDigit := standard.whole d (split ▸ List.mem_cons_self)
      have other : d ≠ CodePoint.ofChar '-' := by
        rintro rfl
        revert digit
        decide
      simp [text, negative, unsignedText, split, other]
  have unsigned : (if (n.text ++ rest).head? = some (CodePoint.ofChar '-') then (n.text ++ rest).drop 1
      else n.text ++ rest) = n.whole ++ (n.fractionText ++ (n.exponentText ++ rest)) := by
    simp only [sign]
    cases negative : n.negative <;> simp [text, negative, unsignedText]
  have whole : scanWhole (n.whole ++ (n.fractionText ++ (n.exponentText ++ rest))) = n.whole :=
    scanWhole_append standard fractionStops
  have fraction : scanFraction (n.fractionText ++ (n.exponentText ++ rest)) = n.fraction :=
    scanFraction_append standard exponentStops
  have exponent := scanExponent_append standard ends
  have nonempty : n.whole.isEmpty = false := by simpa using standard.nonempty
  unfold scan?
  simp only [unsigned, whole, nonempty, Bool.false_eq_true, if_false, List.drop_left, fraction,
    ← length_fractionText, exponent]
  have negative : decide ((n.text ++ rest).head? = some (CodePoint.ofChar '-')) = n.negative := by
    simp only [sign, Bool.decide_eq_true]
  have length : (if (n.text ++ rest).head? = some (CodePoint.ofChar '-') then 1 else 0) + n.whole.length +
      n.fractionText.length + n.exponentText.length = n.text.length := by
    simp only [sign]
    cases negative : n.negative <;> simp [text, unsignedText, negative] <;> omega
  rw [negative, length]

/-! ## Integers -/

/-- The numeral of an integer. -/
def ofInteger (k : Int) : Numeral := ⟨decide (k < 0), ofNat k.natAbs, [], false, []⟩

theorem text_ofInteger (k : Int) : (ofInteger k).text = Text.ofInt k := by
  cases k with
  | ofNat n => simp [ofInteger, text, unsignedText, fractionText, exponentText, Text.ofInt]
  | negSucc n => simp [ofInteger, text, unsignedText, fractionText, exponentText, Text.ofInt, Int.negSucc_lt_zero]

theorem standard_ofInteger (k : Int) : (ofInteger k).Standard where
  whole := digits_ofNat k.natAbs
  nonempty := ofNat_ne_nil k.natAbs
  leading := by
    by_cases zero : k.natAbs = 0
    · left
      rw [ofInteger, zero]
      rfl
    · right
      exact head_ofNat_ne_zero zero
  fraction := nofun
  exponent := nofun
  signed := fun _ => rfl

theorem value_ofInteger (k : Int) : (ofInteger k).value = .integer k := by
  have integral : (ofInteger k).isIntegral = true := rfl
  have size : (toNat (ofInteger k).whole : Int) = k.natAbs := congrArg _ (toNat_ofNat k.natAbs)
  simp only [value, if_pos integral, size]
  rcases lt_or_ge k 0 with negative | natural
  · have back : -(k.natAbs : Int) = k := by omega
    simp only [ofInteger, negative, decide_true, if_true, back]
  · have back : (k.natAbs : Int) = k := by omega
    simp only [ofInteger, not_lt.mpr natural, decide_false, Bool.false_eq_true, if_false, back]

theorem isTooLong_ofInteger {k : Int} (short : k.natAbs < Nat.pow 10 digitLimit) :
    (ofInteger k).isTooLong = false := by
  have few : (ofNat k.natAbs).length ≤ digitLimit := (length_ofNat_le_iff (by decide)).mpr short
  have fits : ¬ digitLimit < (ofInteger k).whole.length := not_lt.mpr few
  simp [isTooLong, fits]

/-! ## Binary64 numbers -/

/-- The zeros at the end of a text. -/
theorem exists_zeros (t : Text) :
    ∃ j, t = (t.reverse.dropWhile (· = CodePoint.ofChar '0')).reverse ++ List.replicate j (CodePoint.ofChar '0') := by
  have zeros : ∀ c ∈ t.rtakeWhile (· = CodePoint.ofChar '0'), c = CodePoint.ofChar '0' := by
    intro c member
    simpa using List.mem_rtakeWhile_imp member
  refine ⟨(t.rtakeWhile (· = CodePoint.ofChar '0')).length, ?_⟩
  rw [← List.eq_replicate_of_mem zeros]
  exact List.rdropWhile_append_rtakeWhile.symm

/-- The digits of a number other than zero, without the zeros at the end. -/
theorem exists_significant {n : Nat} (nonzero : n ≠ 0) :
    ∃ ds j, ((ofNat n).reverse.dropWhile (· = CodePoint.ofChar '0')).reverse = ds ∧ Digits ds ∧ ds ≠ [] ∧
      ds.head? ≠ some (CodePoint.ofChar '0') ∧ (ofNat n).length = ds.length + j ∧ n = toNat ds * 10 ^ j := by
  obtain ⟨j, split⟩ := exists_zeros (ofNat n)
  generalize stripped : ((ofNat n).reverse.dropWhile (· = CodePoint.ofChar '0')).reverse = ds at split
  have value : n = toNat ds * 10 ^ j := by
    rw [← toNat_ofNat n, split, toNat_append, toNat_zeros, List.length_replicate, Nat.add_zero]
  have nonempty : ds ≠ [] := by
    rintro rfl
    exact nonzero (value.trans (Nat.zero_mul _))
  refine ⟨ds, j, rfl, ?_, nonempty, ?_, ?_, value⟩
  · intro c member
    exact digits_ofNat n c (split ▸ List.mem_append_left _ member)
  · have head := head_ofNat_ne_zero nonzero
    rwa [split, List.head?_append_of_ne_nil _ nonempty] at head
  · rw [split, List.length_append, List.length_replicate]

/-- The numeral writes the text with its sign apart, and the point behind as many of the digits as
    `point` says. It is no integer's. -/
structure Writes (n : Numeral) (negative : Bool) (t ds : Text) (point : Int) : Prop where
  standard : n.Standard
  negative : n.negative = negative
  text : n.unsignedText = t
  fractional : n.isIntegral = false
  decimal : ∃ z : Nat, n.decimal = ⟨toNat ds * 10 ^ z, point - ds.length - z⟩

/-- A numeral with a point and without an exponent. -/
theorem writes_fixed (negative : Bool) {whole fraction ds : Text} {point : Int} (z : Nat) (digits : Digits whole)
    (nonempty : whole ≠ [])
    (leading : whole = [CodePoint.ofChar '0'] ∨ whole.head? ≠ some (CodePoint.ofChar '0'))
    (fractionDigits : Digits fraction) (fractionNonempty : fraction ≠ [])
    (value : toNat (whole ++ fraction) = toNat ds * 10 ^ z)
    (places : -(fraction.length : Int) = point - ds.length - z) :
    Writes ⟨negative, whole, fraction, false, []⟩ negative (whole ++ CodePoint.ofChar '.' :: fraction) ds point where
  standard := ⟨digits, nonempty, leading, fractionDigits, nofun, fun _ => rfl⟩
  negative := rfl
  text := by simp [unsignedText, fractionText, exponentText, fractionNonempty]
  fractional := by simp [isIntegral, fractionNonempty]
  decimal := by
    refine ⟨z, ?_⟩
    have none : toNat [] = 0 := rfl
    simp only [Numeral.decimal, value, none, Bool.false_eq_true, if_false, ← places, Int.natCast_zero, Int.zero_sub]

section
variable {ds : Text} {point : Int}

theorem writes_inFront (digits : Digits ds) (nonempty : ds ≠ []) (negative : Bool) (inFront : point ≤ 0) :
    ∃ n : Numeral, n.Writes negative (DecimalLayout.positional ds point) ds point := by
  have zero : toNat [CodePoint.ofChar '0'] = 0 := rfl
  have text : DecimalLayout.positional ds point = [CodePoint.ofChar '0'] ++
      CodePoint.ofChar '.' :: (List.replicate (-point).toNat (CodePoint.ofChar '0') ++ ds) := by
    rw [DecimalLayout.positional, if_pos inFront, List.append_assoc]
    rfl
  rw [text]
  refine ⟨_, writes_fixed negative 0 (digits_zeros 1) (List.cons_ne_nil _ _) (.inl rfl)
    ((digits_zeros _).append digits) (List.append_ne_nil_of_right_ne_nil _ nonempty) ?_ ?_⟩
  · simp only [toNat_append, zero, toNat_zeros, Nat.zero_mul, Nat.zero_add, Nat.pow_zero, Nat.mul_one]
  · rw [List.length_append, List.length_replicate]
    omega

/-- Digits that all stand before the point are filled up with zeros, and one zero stands behind it. -/
theorem writes_behind (digits : Digits ds) (nonempty : ds ≠ []) (head : ds.head? ≠ some (CodePoint.ofChar '0'))
    (negative : Bool) {places : Nat} (short : ds.length ≤ places) :
    ∃ n : Numeral, n.Writes negative (DecimalLayout.padded places (ds.take places) ++
      CodePoint.ofChar '.' :: DecimalLayout.padded 1 (ds.drop places)) ds places := by
  have zero : toNat [CodePoint.ofChar '0'] = 0 := rfl
  have whole : DecimalLayout.padded places (ds.take places) =
      ds ++ List.replicate (places - ds.length) (CodePoint.ofChar '0') := by
    rw [List.take_of_length_le short, DecimalLayout.padded]
  have fraction : DecimalLayout.padded 1 (ds.drop places) = [CodePoint.ofChar '0'] := by
    rw [List.drop_eq_nil_of_le short]
    rfl
  rw [whole, fraction]
  refine ⟨_, writes_fixed negative (places - ds.length + 1) (digits.append (digits_zeros _))
    (List.append_ne_nil_of_left_ne_nil nonempty _) (.inr ?_) (digits_zeros 1) (List.cons_ne_nil _ _) ?_ ?_⟩
  · rwa [List.head?_append_of_ne_nil _ nonempty]
  · simp only [toNat_append, zero, toNat_zeros, List.length_replicate, List.length_singleton, Nat.add_zero]
    rw [Nat.mul_assoc, ← Nat.pow_add]
  · simp only [List.length_singleton]
    omega

/-- A point between the digits leaves them as they are. -/
theorem writes_between (digits : Digits ds) (head : ds.head? ≠ some (CodePoint.ofChar '0')) (negative : Bool)
    {places : Nat} (some : 0 < places) (long : places < ds.length) :
    ∃ n : Numeral, n.Writes negative (DecimalLayout.padded places (ds.take places) ++
      CodePoint.ofChar '.' :: DecimalLayout.padded 1 (ds.drop places)) ds places := by
  have whole : DecimalLayout.padded places (ds.take places) = ds.take places := by
    rw [DecimalLayout.padded, List.length_take_of_le long.le, Nat.sub_self, List.replicate_zero, List.append_nil]
  have fraction : DecimalLayout.padded 1 (ds.drop places) = ds.drop places := by
    have enough : 1 - (ds.drop places).length = 0 := by
      rw [List.length_drop]
      omega
    rw [DecimalLayout.padded, enough, List.replicate_zero, List.append_nil]
  have first : (ds.take places).head? = ds.head? := by
    rw [List.head?_take, if_neg some.ne']
  have front : ds.take places ≠ [] := by
    intro none
    have length := List.length_take_of_le long.le
    rw [none, List.length_nil] at length
    omega
  have back : ds.drop places ≠ [] := by
    simpa using long
  rw [whole, fraction]
  refine ⟨_, writes_fixed negative 0 (digits.take _) front (.inr (first ▸ head)) (digits.drop _) back ?_ ?_⟩
  · rw [List.take_append_drop, Nat.pow_zero, Nat.mul_one]
  · rw [List.length_drop]
    omega

/-- Positional notation is a numeral with a point and no exponent. -/
theorem exists_positional (digits : Digits ds) (nonempty : ds ≠ []) (head : ds.head? ≠ some (CodePoint.ofChar '0'))
    (negative : Bool) : ∃ n : Numeral, n.Writes negative (DecimalLayout.positional ds point) ds point := by
  rcases le_or_gt point 0 with inFront | inside
  · exact writes_inFront digits nonempty negative inFront
  obtain ⟨places, rfl⟩ := Int.eq_ofNat_of_zero_le inside.le
  have text : DecimalLayout.positional ds places = DecimalLayout.padded places (ds.take places) ++
      CodePoint.ofChar '.' :: DecimalLayout.padded 1 (ds.drop places) := by
    rw [DecimalLayout.positional, if_neg (not_le.mpr inside), Int.toNat_natCast]
    simp [lit]
  rw [text]
  rcases le_or_gt ds.length places with short | long
  · exact writes_behind digits nonempty head negative short
  · exact writes_between digits head negative (by omega) long

/-- Scientific notation is a numeral with one digit before the point. -/
theorem exists_scientific (layout : DecimalLayout) (digits : Digits ds) (nonempty : ds ≠ [])
    (head : ds.head? ≠ some (CodePoint.ofChar '0')) (negative : Bool) :
    ∃ n : Numeral, n.Writes negative (layout.scientific ds point) ds point := by
  have some : 0 < ds.length := List.length_pos_iff.mpr nonempty
  generalize power : List.replicate (layout.exponentWidth - (ofNat (point - 1).natAbs).length)
    (CodePoint.ofChar '0') ++ ofNat (point - 1).natAbs = exponent
  have exponentNonempty : exponent ≠ [] := by
    rw [← power]
    exact List.append_ne_nil_of_right_ne_nil _ (ofNat_ne_nil _)
  have size : toNat exponent = (point - 1).natAbs := by
    rw [← power, toNat_append, toNat_zeros, Nat.zero_mul, Nat.zero_add, toNat_ofNat]
  refine ⟨⟨negative, ds.take 1, ds.drop 1, decide (point - 1 < 0), exponent⟩, ?_, rfl, ?_, ?_, 0, ?_⟩
  · refine ⟨digits.take 1, ?_, .inr ?_, digits.drop 1, ?_, fun none => absurd none exponentNonempty⟩
    · simpa using nonempty
    · simpa [List.head?_take] using head
    · rw [← power]
      exact (digits_zeros _).append (digits_ofNat _)
  · have behind : layout.exponentText (point - 1) =
        CodePoint.ofChar 'e' :: CodePoint.ofChar (if point - 1 < 0 then '-' else '+') :: exponent := by
      rw [DecimalLayout.exponentText, List.append_assoc, power]
      split <;> rfl
    rw [unsignedText, fractionText, exponentText, if_neg exponentNonempty, DecimalLayout.scientific, behind,
      List.append_assoc]
    simp only [List.drop_eq_nil_iff, decide_eq_true_eq]
    rfl
  · simp [isIntegral, exponentNonempty]
  · simp only [Numeral.decimal, List.take_append_drop, size, decide_eq_true_eq, Nat.pow_zero, Nat.mul_one,
      List.length_drop]
    congr 1
    split <;> omega

/-- What is written for a decimal other than zero is a numeral with its value. -/
theorem exists_layout (layout : DecimalLayout) {d : Decimal} (nonzero : d.digits ≠ 0) (negative : Bool) :
    ∃ n : Numeral, n.Standard ∧ n.negative = negative ∧ n.isIntegral = false ∧
      n.unsignedText = layout.text d ∧ n.decimal.nearest? = d.nearest? := by
  obtain ⟨ds, j, stripped, digits, nonempty, head, length, value⟩ := exists_significant nonzero
  have written : ∃ n : Numeral, n.Writes negative (layout.text d) ds ((ofNat d.digits).length + d.exponent) := by
    unfold DecimalLayout.text
    dsimp only
    rw [stripped]
    split
    · exact exists_positional digits nonempty head negative
    · exact exists_scientific layout digits nonempty head negative
  obtain ⟨n, standard, sign, text, fractional, z, decimal⟩ := written
  refine ⟨n, standard, sign, fractional, text, ?_⟩
  have exponent : d.exponent = (ofNat d.digits).length + d.exponent - ds.length - j := by omega
  rw [decimal, Decimal.nearest?_zeros, ← Decimal.nearest?_zeros _ j, ← value, ← exponent]

end

/-- A finite number is written as a numeral that denotes it, its sign included. -/
theorem exists_float (words : SpecialWords) (negative : Bool) (m : Magnitude) :
    ∃ n : Numeral, n.Standard ∧ n.isTooLong = false ∧ n.text = (Binary64.finite negative m).text words ∧
      n.value = .float (.finite negative m) := by
  have written : ∃ n : Numeral, n.Standard ∧ n.negative = negative ∧ n.isIntegral = false ∧
      n.unsignedText = m.text ∧ n.decimal.nearest? = some m := by
    by_cases nothing : m.significand = 0
    · refine ⟨⟨negative, [CodePoint.ofChar '0'], [CodePoint.ofChar '0'], false, []⟩,
        ⟨digits_zeros 1, List.cons_ne_nil _ _, .inl rfl, digits_zeros 1, nofun, fun _ => rfl⟩, rfl, rfl, ?_, ?_⟩
      · rw [Magnitude.text, if_pos nothing]
        rfl
      · rw [Magnitude.eq_zero_of_significand nothing]
        rfl
    · obtain ⟨n, standard, sign, fractional, text, decimal⟩ :=
        exists_layout .standard (Magnitude.digits_shortest_ne_zero nothing) negative
      refine ⟨n, standard, sign, fractional, ?_, decimal.trans (Magnitude.nearest?_shortest m)⟩
      rw [text, Magnitude.text, if_neg nothing]
  obtain ⟨n, standard, sign, fractional, text, decimal⟩ := written
  refine ⟨n, standard, ?_, ?_, ?_⟩
  · rw [isTooLong, fractional, Bool.false_and]
  · rw [Numeral.text, sign, text, Binary64.text]
    cases negative <;> rfl
  · simp [value, fractional, sign, Binary64.ofDecimal, decimal]

end CallByValue.JsonToken.Numeral
