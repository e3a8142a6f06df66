import CallByValue.Proofs.Likeness
import CallByValue.Proofs.Sameness

/-!
# Plain numbers

Numbers without what does not tell in calculations: the mark of a NaN, and the
sign of a zero, as no quotient by zero is computed. Numbers that are equal and of
one kind are the same when plain, and plain operands make plain results the same.
The kind does tell: integers are exact where binary64 numbers are rounded. A NaN
that a calculation comes to is made there, so the marks of older ones may be kept.
-/

namespace CallByValue

/-! ## Signs of zeros -/

theorem roundHalfEven_pos {num den : Nat} (positive : 0 < den) (le : den ≤ num) : 0 < roundHalfEven num den := by
  have quotient : 0 < num / den := Nat.div_pos le positive
  unfold roundHalfEven
  dsimp only
  split_ifs <;> omega

theorem Magnitude.units_injective {a b : Magnitude} (same : a.units = b.units) : a = b := by
  have nearest := nearest?_units a
  rw [same, nearest?_units b] at nearest
  exact (Option.some.inj nearest).symm

theorem Magnitude.units_eq_zero_iff {m : Magnitude} : m.units = 0 ↔ m.significand = 0 := by
  unfold units
  generalize scale : Nat.pow 2 m.scale = power
  have positive : 0 < power := scale ▸ Nat.two_pow_pos m.scale
  simp [positive.ne']

/-- What is not less than a unit does not vanish. -/
theorem Magnitude.significand_ne_zero_of_nearest? {num : Nat} {m : Magnitude} (found : nearest? num 1 = some m)
    (positive : 0 < num) : m.significand ≠ 0 := by
  have some_of_parts : ∀ {significand scale}, ofParts? significand scale = some m → m.significand = significand := by
    intro significand scale parts
    unfold ofParts? at parts
    split at parts
    · rw [← Option.some.inj parts]
    · cases parts
  have rounded : 0 < roundHalfEven num (1 * Nat.pow 2 (scaleOf (num / 1))) := by
    rw [Nat.div_one, Nat.one_mul, Nat.pow_eq]
    have power : 2 ^ scaleOf num ≤ num :=
      (Nat.pow_le_pow_right (by decide) (Nat.sub_le _ _)).trans (Nat.log2_self_le positive.ne')
    exact roundHalfEven_pos (Nat.two_pow_pos _) power
  unfold nearest? at found
  dsimp only at found
  split at found
  · rw [some_of_parts found]
    exact (Nat.two_pow_pos 52).ne'
  · rw [some_of_parts found]
    exact rounded.ne'

namespace Binary64

/-- The number without its mark, and without its sign if it is zero. -/
def plain : Binary64 → Binary64
  | .finite negative m => .finite (negative && decide (m.significand ≠ 0)) m
  | .infinite negative => .infinite negative
  | .nan _ => .nan 0

@[simp] theorem plain_finite (negative : Bool) (m : Magnitude) :
    (finite negative m).plain = .finite (negative && decide (m.significand ≠ 0)) m := rfl

@[simp] theorem plain_infinite (negative : Bool) : (infinite negative).plain = .infinite negative := rfl

@[simp] theorem plain_nan (mark : Nat) : (nan mark).plain = .nan 0 := rfl

@[simp] theorem plain_zero (negative : Bool) : (zero negative).plain = zero false := by
  simp [zero, Magnitude.zero]

@[simp] theorem signed_plain (negative : Bool) (m : Magnitude) :
    signed (negative && decide (m.significand ≠ 0)) m.units = signed negative m.units := by
  by_cases nothing : m.significand = 0
  · have none : m.units = 0 := Magnitude.units_eq_zero_iff.mpr nothing
    simp [signed, none]
  · simp [nothing]

@[simp] theorem plain_plain (x : Binary64) : x.plain.plain = x.plain := by
  cases x <;> simp

theorem isZero_plain (x : Binary64) : x.plain.isZero = x.isZero := by
  cases x <;> rfl

theorem equals_plain (x y : Binary64) : x.plain.equals y.plain = x.equals y := by
  cases x <;> cases y <;> simp only [plain, equals, signed_plain]

theorem equalsInt_plain (x : Binary64) (n : Int) : x.plain.equalsInt n = x.equalsInt n := by
  cases x <;> simp only [plain, equalsInt, signed_plain]

theorem plain_neg (x : Binary64) : x.neg.plain = x.plain.neg.plain := by
  cases x with
  | finite negative m => by_cases nothing : m.significand = 0 <;> simp [neg, nothing]
  | _ => rfl

/-- The sign of what vanishes is no matter. -/
theorem plain_nearest_zero (n m : Bool) {den : Nat} (positive : 0 < den) :
    (nearest n 0 den).plain = (nearest m 0 den).plain := by
  have small : 2 * 0 < den := positive
  have vanishes : Magnitude.nearest? 0 den = some .zero := Magnitude.nearest?_eq_zero small
  unfold nearest
  rw [vanishes]
  exact (plain_zero n).trans (plain_zero m).symm

theorem plain_add (mark : Nat) (x y : Binary64) : (add mark x y).plain = (add 0 x.plain y.plain).plain := by
  cases x with
  | finite n a =>
    cases y with
    | finite m b =>
      simp only [plain_finite, add, signed_plain, apply_ite plain, plain_zero]
    | _ => rfl
  | infinite n =>
    cases y with
    | infinite m => by_cases same : n = m <;> simp [add, same]
    | _ => rfl
  | nan i => cases y <;> rfl

theorem plain_sub (mark : Nat) (x y : Binary64) : (sub mark x y).plain = (sub 0 x.plain y.plain).plain := by
  rw [sub, plain_add, plain_neg, sub, plain_add 0 x.plain y.plain.neg, plain_plain]

theorem plain_mul (mark : Nat) (x y : Binary64) : (mul mark x y).plain = (mul 0 x.plain y.plain).plain := by
  cases x with
  | finite n a =>
    cases y with
    | finite m b =>
      by_cases nothing : a.units * b.units = 0
      · simp only [mul, plain_finite, nothing]
        exact plain_nearest_zero _ _ Magnitude.unitsPerOne_pos
      · obtain ⟨left, right⟩ : a.units ≠ 0 ∧ b.units ≠ 0 := by simpa using nothing
        rw [ne_eq, Magnitude.units_eq_zero_iff] at left right
        simp [mul, left, right]
    | infinite m => by_cases nothing : a.significand = 0 <;> simp [mul, nothing]
    | nan j => rfl
  | infinite n =>
    cases y with
    | finite m b => by_cases nothing : b.significand = 0 <;> simp [mul, nothing]
    | _ => rfl
  | nan i => cases y <;> rfl

/-- A quotient by something that does not vanish. -/
theorem plain_div (mark : Nat) (x : Binary64) {y : Binary64} (nonzero : y.isZero = false) :
    (div mark x y).plain = (div 0 x.plain y.plain).plain := by
  cases y with
  | finite m b =>
    have right : b.significand ≠ 0 := by simpa [isZero] using nonzero
    cases x with
    | finite n a =>
      by_cases nothing : a.units = 0
      · simp only [div, plain_finite, if_neg right, nothing, Nat.zero_mul]
        refine plain_nearest_zero _ _ (Nat.pos_of_ne_zero ?_)
        rwa [ne_eq, Magnitude.units_eq_zero_iff]
      · rw [Magnitude.units_eq_zero_iff] at nothing
        simp [div, right, nothing]
    | infinite n => simp [div, right]
    | nan i => rfl
  | infinite m =>
    cases x with
    | finite n a => simp [div]
    | _ => rfl
  | nan j => cases x <;> rfl

/-- Numbers that are equal differ at most in the sign of a zero. -/
theorem plain_eq_of_equals {x y : Binary64} (equal : x.equals y = true) : x.plain = y.plain := by
  cases x with
  | finite n a =>
    cases y with
    | finite m b =>
      have units : signed n a.units = signed m b.units := by simpa [equals] using equal
      have sizes := congrArg Int.natAbs units
      rw [natAbs_signed, natAbs_signed] at sizes
      obtain rfl := Magnitude.units_injective sizes
      by_cases nothing : a.significand = 0
      · simp [nothing]
      · have positive : a.units ≠ 0 := by rwa [ne_eq, Magnitude.units_eq_zero_iff]
        have signs : n = m := by
          unfold signed at units
          cases n <;> cases m <;> grind
        rw [signs]
    | _ => cases equal
  | infinite n =>
    cases y with
    | infinite m => simpa [equals] using equal
    | _ => cases equal
  | nan i => cases y <;> cases equal

/-- An integer that is not zero is not rounded to zero. -/
theorem isZero_of_ofInt? {n : Int} {x : Binary64} (rounded : ofInt? n = some x) (nonzero : n ≠ 0) :
    x.isZero = false := by
  obtain ⟨m, nearest, rfl⟩ := Option.map_eq_some_iff.mp rounded
  have positive : 0 < n.natAbs * Magnitude.unitsPerOne :=
    Nat.mul_pos (Int.natAbs_pos.mpr nonzero) Magnitude.unitsPerOne_pos
  simpa [isZero] using Magnitude.significand_ne_zero_of_nearest? nearest positive

end Binary64

namespace Number

def plain : Number → Number
  | .integer n => .integer n
  | .float x => .float x.plain

theorem isZero_plain (a : Number) : a.plain.isZero = a.isZero := by
  cases a with
  | integer n => rfl
  | float x => exact x.isZero_plain

theorem equals_plain (a b : Number) : a.plain.equals b.plain = a.equals b := by
  cases a with
  | integer n =>
    cases b with
    | integer m => rfl
    | float y => exact y.equalsInt_plain n
  | float x =>
    cases b with
    | integer m => exact x.equalsInt_plain m
    | float y => exact x.equals_plain y

/-- Numbers of one kind differ at most as plain numbers may. -/
theorem plain_cases {a b : Number} (same : a.plain = b.plain) :
    (∃ n, a = .integer n ∧ b = .integer n) ∨ ∃ x y, a = .float x ∧ b = .float y ∧ x.plain = y.plain := by
  cases a with
  | integer n =>
    cases b with
    | integer m => exact .inl ⟨n, rfl, by rw [plain, plain] at same; exact same.symm⟩
    | float y => cases same
  | float x =>
    cases b with
    | integer m => cases same
    | float y => exact .inr ⟨x, y, rfl, rfl, Number.float.inj same⟩

theorem toBinary64?_cases {a b : Number} (same : a.plain = b.plain) :
    (a.toBinary64? = none ∧ b.toBinary64? = none) ∨
      ∃ x y, a.toBinary64? = some x ∧ b.toBinary64? = some y ∧ x.plain = y.plain := by
  rcases plain_cases same with ⟨n, rfl, rfl⟩ | ⟨x, y, rfl, rfl, floats⟩
  · cases (integer n).toBinary64? with
    | none => exact .inl ⟨rfl, rfl⟩
    | some x => exact .inr ⟨x, x, rfl, rfl, rfl⟩
  · exact .inr ⟨x, y, rfl, rfl, floats⟩

section
variable {combine combine' : Binary64 → Binary64 → Binary64} {a b c d : Number}

/-- Rounding both operands first does not look at signs of zeros either. -/
theorem rounded_plain (left : a.plain = c.plain) (right : b.plain = d.plain)
    (blind : ∀ {x x' y y'}, b.toBinary64? = some y → x.plain = x'.plain → y.plain = y'.plain →
      (combine x y).plain = (combine' x' y').plain) :
    (rounded combine a b).map plain = (rounded combine' c d).map plain := by
  unfold rounded
  rcases toBinary64?_cases left with ⟨ha, hc⟩ | ⟨x, x', ha, hc, lefts⟩
  · simp only [ha, hc]
  · rcases toBinary64?_cases right with ⟨hb, hd⟩ | ⟨y, y', hb, hd, rights⟩
    · simp only [ha, hb, hc, hd]
    · simp only [ha, hb, hc, hd]
      exact congrArg (fun z => Except.ok (float z)) (blind hb lefts rights)

/-- Exact on integers, and rounded where one operand is not an integer. -/
structure Mixed (op : Number → Number → Except ArithmeticFault Number) (exact : Int → Int → Int)
    (combine : Binary64 → Binary64 → Binary64) : Prop where
  integers : ∀ n m, op (.integer n) (.integer m) = .ok (.integer (exact n m))
  left : ∀ x b, op (.float x) b = rounded combine (.float x) b
  right : ∀ a y, op a (.float y) = rounded combine a (.float y)

theorem Mixed.plain_eq {op op' : Number → Number → Except ArithmeticFault Number} {exact : Int → Int → Int}
    (mixed : Mixed op exact combine) (mixed' : Mixed op' exact combine') (left : a.plain = c.plain)
    (right : b.plain = d.plain)
    (blind : ∀ {x x' y y'}, x.plain = x'.plain → y.plain = y'.plain → (combine x y).plain = (combine' x' y').plain) :
    (op a b).map plain = (op' c d).map plain := by
  rcases plain_cases left with ⟨n, rfl, rfl⟩ | ⟨x, x', rfl, rfl, floats⟩
  · rcases plain_cases right with ⟨m, rfl, rfl⟩ | ⟨y, y', rfl, rfl, floats⟩
    · rw [mixed.integers, mixed'.integers]
    · rw [mixed.right, mixed'.right]
      exact rounded_plain left right fun _ => blind
  · rw [mixed.left, mixed'.left]
    exact rounded_plain left right fun _ => blind

end

theorem mixed_add (mark : Nat) : Mixed (add mark) (· + ·) (Binary64.add mark) :=
  ⟨fun _ _ => rfl, fun _ _ => rfl, fun a _ => by cases a <;> rfl⟩

theorem mixed_sub (mark : Nat) : Mixed (sub mark) (· - ·) (Binary64.sub mark) :=
  ⟨fun _ _ => rfl, fun _ _ => rfl, fun a _ => by cases a <;> rfl⟩

theorem mixed_mul (mark : Nat) : Mixed (mul mark) (· * ·) (Binary64.mul mark) :=
  ⟨fun _ _ => rfl, fun _ _ => rfl, fun a _ => by cases a <;> rfl⟩

theorem div_plain (mark mark' : Nat) {a b c d : Number} (left : a.plain = c.plain) (right : b.plain = d.plain) :
    (div mark a b).map plain = (div mark' c d).map plain := by
  have zeros : d.isZero = b.isZero := by rw [← isZero_plain d, ← right, isZero_plain]
  by_cases zero : b.isZero = true
  · rw [div_of_isZero mark zero, div_of_isZero mark' (zeros.trans zero)]
  · have nonzero : ∀ y, b.toBinary64? = some y → y.isZero = false := by
      intro y converted
      cases b with
      | integer m => exact Binary64.isZero_of_ofInt? converted (by simpa [isZero] using zero)
      | float y' => cases converted; simpa [isZero] using zero
    have blind : ∀ {x x' y y' : Binary64}, b.toBinary64? = some y → x.plain = x'.plain → y.plain = y'.plain →
        (Binary64.div mark x y).plain = (Binary64.div mark' x' y').plain := by
      intro x x' y y' converted lefts rights
      have other : y'.isZero = false := by
        rw [← y'.isZero_plain, ← rights, y.isZero_plain, nonzero y converted]
      rw [Binary64.plain_div mark x (nonzero y converted), lefts, rights, ← Binary64.plain_div mark' x' other]
    have zero' : ¬ d.isZero = true := zeros ▸ zero
    rcases plain_cases left with ⟨n, rfl, rfl⟩ | ⟨x, x', rfl, rfl, floats⟩
    · rcases plain_cases right with ⟨m, rfl, rfl⟩ | ⟨y, y', rfl, rfl, floats⟩
      · rw [div_integers mark zero, div_integers mark' zero']
      · rw [div_float_right mark zero, div_float_right mark' zero']
        exact rounded_plain left right blind
    · rw [div_float_left mark zero, div_float_left mark' zero']
      exact rounded_plain left right blind

end Number

namespace BinaryOperator

/-- Either an operator is not arithmetic, or what it makes of two numbers depends on signs of zeros only
    in the sign of a zero. -/
theorem arithmetic?_plain (op : BinaryOperator) (mark mark' : Nat) :
    (op.arithmetic? mark = none ∧ op.arithmetic? mark' = none) ∨
      ∃ f g, op.arithmetic? mark = some f ∧ op.arithmetic? mark' = some g ∧
        ∀ {m n m' n' : Number}, m.plain = n.plain → m'.plain = n'.plain →
          (f m m').map Number.plain = (g n n').map Number.plain := by
  cases op with
  | add =>
    refine .inr ⟨_, _, rfl, rfl, fun left right => ?_⟩
    refine (Number.mixed_add mark).plain_eq (Number.mixed_add mark') left right fun lefts rights => ?_
    rw [Binary64.plain_add, lefts, rights, ← Binary64.plain_add]
  | sub =>
    refine .inr ⟨_, _, rfl, rfl, fun left right => ?_⟩
    refine (Number.mixed_sub mark).plain_eq (Number.mixed_sub mark') left right fun lefts rights => ?_
    rw [Binary64.plain_sub, lefts, rights, ← Binary64.plain_sub]
  | mul =>
    refine .inr ⟨_, _, rfl, rfl, fun left right => ?_⟩
    refine (Number.mixed_mul mark).plain_eq (Number.mixed_mul mark') left right fun lefts rights => ?_
    rw [Binary64.plain_mul, lefts, rights, ← Binary64.plain_mul]
  | div => exact .inr ⟨_, _, rfl, rfl, fun left right => Number.div_plain mark mark' left right⟩
  | equal => exact .inl ⟨rfl, rfl⟩

end BinaryOperator

/-! ## Marks of older NaNs -/

namespace Binary64

/-- The number when it is plain, but that NaNs with marks below some mark keep theirs. -/
def plainSince (since : Nat) : Binary64 → Binary64
  | .nan mark => .nan (min mark since)
  | x => x.plain

variable {since mark i : Nat} {x y : Binary64}

theorem plainSince_eq_iff :
    x.plainSince since = y.plainSince since ↔
      x.plain = y.plain ∧ ∀ i j, x = .nan i → y = .nan j → min i since = min j since := by
  cases x <;> cases y <;> simp [plainSince]

theorem plain_plainSince (since : Nat) (x : Binary64) : (x.plainSince since).plain = x.plain := by
  cases x <;> simp [plainSince]

theorem nearest_ne_nan (negative : Bool) (num den i : Nat) : nearest negative num den ≠ .nan i := by
  unfold nearest
  split <;> exact nofun

theorem mark_of_add (made : add mark x y = .nan i) : i = mark := by
  unfold add at made
  grind [nearest_ne_nan, zero]

theorem mark_of_mul (made : mul mark x y = .nan i) : i = mark := by
  unfold mul at made
  grind [nearest_ne_nan]

theorem mark_of_div (made : div mark x y = .nan i) : i = mark := by
  unfold div at made
  grind [nearest_ne_nan, zero]

end Binary64

namespace Number

def plainSince (since : Nat) : Number → Number
  | .integer n => .integer n
  | .float x => .float (x.plainSince since)

variable {since mark i : Nat} {a b : Number}

theorem plainSince_eq_iff :
    a.plainSince since = b.plainSince since ↔
      a.plain = b.plain ∧ ∀ i j, a = .float (.nan i) → b = .float (.nan j) → min i since = min j since := by
  cases a <;> cases b <;> simp [plainSince, plain, Binary64.plainSince_eq_iff]

theorem plain_plainSince (since : Nat) (a : Number) : (a.plainSince since).plain = a.plain := by
  cases a with
  | integer n => rfl
  | float x => exact congrArg float (x.plain_plainSince since)

theorem isZero_plainSince (since : Nat) (a : Number) : (a.plainSince since).isZero = a.isZero := by
  rw [← isZero_plain (a.plainSince since), plain_plainSince, isZero_plain]

theorem equals_plainSince (since : Nat) (a b : Number) :
    (a.plainSince since).equals (b.plainSince since) = a.equals b := by
  rw [← equals_plain (a.plainSince since), plain_plainSince, plain_plainSince, equals_plain]

theorem mark_of_rounded {combine : Binary64 → Binary64 → Binary64}
    (fresh : ∀ {x y i}, combine x y = .nan i → i = mark) (made : rounded combine a b = .ok (.float (.nan i))) :
    i = mark := by
  unfold rounded at made
  split at made
  · exact fresh (Number.float.inj (Except.ok.inj made))
  · cases made

theorem Mixed.mark_of_nan {op : Number → Number → Except ArithmeticFault Number} {exact : Int → Int → Int}
    {combine : Binary64 → Binary64 → Binary64} (mixed : Mixed op exact combine)
    (fresh : ∀ {x y i}, combine x y = .nan i → i = mark) (made : op a b = .ok (.float (.nan i))) : i = mark := by
  cases a with
  | float x => exact mark_of_rounded fresh (mixed.left x b ▸ made)
  | integer n =>
    cases b with
    | float y => exact mark_of_rounded fresh (mixed.right (.integer n) y ▸ made)
    | integer m =>
      rw [mixed.integers] at made
      cases made

theorem mark_of_div (made : div mark a b = .ok (.float (.nan i))) : i = mark := by
  by_cases zero : b.isZero = true
  · rw [div_of_isZero mark zero] at made
    cases made
  · cases a with
    | float x => exact mark_of_rounded Binary64.mark_of_div (div_float_left mark zero ▸ made)
    | integer n =>
      cases b with
      | float y => exact mark_of_rounded Binary64.mark_of_div (div_float_right mark zero ▸ made)
      | integer m =>
        rw [div_integers mark zero, ratio] at made
        cases quotient : Binary64.ofQuotient? n m with
        | none => simp [quotient] at made
        | some x =>
          obtain ⟨_, _, rfl⟩ := Option.map_eq_some_iff.mp quotient
          simp [quotient] at made

/-- Results that are the same when plain stay the same if their NaNs keep no mark of their own. -/
theorem map_plainSince_eq {r r' : Except ArithmeticFault Number} (same : r.map plain = r'.map plain)
    (new : ∀ i, r = .ok (.float (.nan i)) → since ≤ i) (new' : ∀ i, r' = .ok (.float (.nan i)) → since ≤ i) :
    r.map (plainSince since) = r'.map (plainSince since) := by
  cases r with
  | error fault =>
    cases r' with
    | error fault' => exact same
    | ok b => cases same
  | ok a =>
    cases r' with
    | error fault => cases same
    | ok b =>
      refine congrArg Except.ok (plainSince_eq_iff.mpr ⟨Except.ok.inj same, ?_⟩)
      rintro i j rfl rfl
      rw [Nat.min_eq_right (new i rfl), Nat.min_eq_right (new' j rfl)]

end Number

namespace BinaryOperator

/-- The NaNs of an operation have its mark. -/
theorem mark_of_arithmetic {op : BinaryOperator} {mark i : Nat} {a b : Number}
    {f : Number → Number → Except ArithmeticFault Number} (arithmetic : op.arithmetic? mark = some f)
    (made : f a b = .ok (.float (.nan i))) : i = mark := by
  cases op with
  | add => cases arithmetic; exact (Number.mixed_add mark).mark_of_nan Binary64.mark_of_add made
  | sub => cases arithmetic; exact (Number.mixed_sub mark).mark_of_nan Binary64.mark_of_add made
  | mul => cases arithmetic; exact (Number.mixed_mul mark).mark_of_nan Binary64.mark_of_mul made
  | div => cases arithmetic; exact Number.mark_of_div made
  | equal => cases arithmetic

/-- Operations whose marks are not kept take operands that are the same to results that are. -/
theorem arithmetic?_plainSince (op : BinaryOperator) {since mark mark' : Nat} (fresh : since ≤ mark)
    (fresh' : since ≤ mark') :
    (op.arithmetic? mark = none ∧ op.arithmetic? mark' = none) ∨
      ∃ f g, op.arithmetic? mark = some f ∧ op.arithmetic? mark' = some g ∧
        ∀ {m n m' n' : Number}, m.plainSince since = n.plainSince since →
          m'.plainSince since = n'.plainSince since →
            (f m m').map (Number.plainSince since) = (g n n').map (Number.plainSince since) := by
  rcases op.arithmetic?_plain mark mark' with none | ⟨f, g, left, right, plain⟩
  · exact .inl none
  · refine .inr ⟨f, g, left, right, fun first second => Number.map_plainSince_eq ?_ ?_ ?_⟩
    · exact plain (Number.plainSince_eq_iff.mp first).1 (Number.plainSince_eq_iff.mp second).1
    · exact fun i made => fresh.trans (mark_of_arithmetic left made).ge
    · exact fun i made => fresh'.trans (mark_of_arithmetic right made).ge

end BinaryOperator

end CallByValue
