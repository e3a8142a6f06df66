import CallByValue.Proofs.RecursiveBindings
import CallByValue.Proofs.Sameness
import Mathlib.Algebra.Order.Field.Rat
import Mathlib.Algebra.GroupWithZero.Basic

/-!
# Equality of values

In the language two numbers are equal if they are one rational number, of whatever
kind they are, or one infinity; other values are equal only within their kind. So
equality is symmetric and transitive, and of all values only a NaN differs from
itself. Closures are told apart by the numbers of their frames: what the frames
hold, be it the closures themselves, is not looked at.
-/

namespace CallByValue

/-! ## Numbers as rational numbers -/

/-- The rational number that a magnitude is. -/
def Magnitude.rational (m : Magnitude) : ℚ := m.significand * 2 ^ ((m.scale : ℤ) - 1074)

/-- The rational number that a binary64 number is, if it is finite. -/
def Binary64.rational? : Binary64 → Option ℚ
  | .finite negative m => some (if negative then -m.rational else m.rational)
  | _ => none

/-- The rational number that a number is, if it is finite. -/
def Number.rational? : Number → Option ℚ
  | .integer n => some n
  | .float x => x.rational?

/-- The rational number that is denoted, if any is. -/
def Denoted.rational? : Denoted → Option ℚ
  | .units n => some (n / Magnitude.unitsPerOne)
  | _ => none

theorem Magnitude.rational_eq (m : Magnitude) : m.rational = m.units / unitsPerOne := by
  obtain ⟨bits, count⟩ : ∃ bits : ℕ, bits = 1074 := ⟨_, rfl⟩
  have scaled : (m.scale : ℤ) - 1074 = m.scale - (bits : ℤ) := by rw [count]; rfl
  rw [rational, scaled, zpow_sub₀ two_ne_zero, zpow_natCast, zpow_natCast, units, Decimal.unitsPerOne_eq count,
    Nat.pow_eq]
  push_cast
  rw [mul_div_assoc]

theorem Denoted.rational?_injective {m n : Int} (same : (units m).rational? = (units n).rational?) : m = n := by
  have positive := Magnitude.unitsPerOne_pos
  simp only [rational?, Option.some.injEq] at same
  generalize Magnitude.unitsPerOne = scale at positive same
  have nonzero : (scale : ℚ) ≠ 0 := by exact_mod_cast positive.ne'
  exact_mod_cast (div_left_inj' nonzero).mp same

namespace Number

theorem rational?_eq (a : Number) : a.rational? = a.denoted.rational? := by
  have positive := Magnitude.unitsPerOne_pos
  cases a with
  | integer n =>
    simp only [rational?, denoted, Denoted.rational?]
    generalize Magnitude.unitsPerOne = scale at positive ⊢
    have nonzero : (scale : ℚ) ≠ 0 := by exact_mod_cast positive.ne'
    push_cast
    rw [mul_div_cancel_right₀ _ nonzero]
  | float x =>
    cases x with
    | finite negative m =>
      simp only [rational?, Binary64.rational?, denoted, Binary64.denoted, Denoted.rational?, Binary64.signed,
        Magnitude.rational_eq]
      generalize Magnitude.unitsPerOne = scale
      cases negative with
      | true => simp only [if_true, Int.cast_neg, Int.cast_natCast, neg_div]
      | false => rfl
    | _ => rfl

/-- Only an infinity denotes that infinity. -/
theorem eq_of_denoted_infinite {a : Number} {negative : Bool} (denoted : a.denoted = .infinite negative) :
    a = .float (.infinite negative) := by
  cases a with
  | integer n => cases denoted
  | float x =>
    cases x with
    | infinite other => cases denoted; rfl
    | _ => cases denoted

/-- Numbers are equal if they are one rational number or one infinity. -/
theorem equals_iff_rational {a b : Number} :
    a.equals b = true ↔ (∃ q, a.rational? = some q ∧ b.rational? = some q) ∨
      ∃ negative, a = .float (.infinite negative) ∧ b = .float (.infinite negative) := by
  rw [equals_iff, rational?_eq, rational?_eq]
  constructor
  · rintro ⟨same, something⟩
    cases denoted : a.denoted with
    | units n => exact .inl ⟨_, rfl, by rw [← same, denoted]; rfl⟩
    | infinite negative =>
      exact .inr ⟨negative, eq_of_denoted_infinite denoted, eq_of_denoted_infinite (same ▸ denoted)⟩
    | nothing => exact absurd denoted something
  · rintro (⟨q, left, right⟩ | ⟨negative, rfl, rfl⟩)
    · cases denoted : a.denoted with
      | units n =>
        cases other : b.denoted with
        | units m =>
          rw [denoted] at left
          rw [other] at right
          exact ⟨congrArg Denoted.units (Denoted.rational?_injective (left.trans right.symm)), nofun⟩
        | _ => rw [other] at right; cases right
      | _ => rw [denoted] at left; cases left
    · exact ⟨rfl, nofun⟩

theorem equals_symm {a b : Number} (equal : a.equals b = true) : b.equals a = true := by
  rw [equals_iff] at equal ⊢
  exact ⟨equal.1.symm, equal.1 ▸ equal.2⟩

theorem equals_trans {a b c : Number} (first : a.equals b = true) (second : b.equals c = true) :
    a.equals c = true := by
  rw [equals_iff] at first second ⊢
  exact ⟨first.1.trans second.1, first.2⟩

/-- Of all numbers only a NaN differs from itself. -/
theorem equals_self_iff (a : Number) : a.equals a = true ↔ ∀ mark, a ≠ .float (.nan mark) := by
  rw [equals_iff]
  constructor
  · rintro ⟨_, something⟩ mark rfl
    exact something rfl
  · intro datum
    refine ⟨rfl, fun nothing => ?_⟩
    obtain ⟨mark, same⟩ := exists_of_denoted_eq_nothing nothing
    exact datum mark same

end Number

/-! ## Closures -/

namespace Closure

theorem same_refl (c : Closure) : c.same c = true := by
  simp [same, Expr.same_refl]

theorem same_congr {c d : Closure} (same : c.same d = true) (e : Closure) : c.same e = d.same e := by
  simp only [Closure.same, Bool.and_eq_true, decide_eq_true_eq] at same
  obtain ⟨⟨params, body⟩, env⟩ := same
  rw [Closure.same, Closure.same, params, env, Expr.same_congr body]

theorem same_symm {c d : Closure} (same : c.same d = true) : d.same c = true := by
  rw [← same_congr same, same_refl]

end Closure

/-! ## Values -/

namespace Value

/-- The ways in which values are equal: as numbers, or within another kind. -/
inductive Equal : Value → Value → Prop where
  | number {a b} (equals : a.equals b = true) : Equal (.atom (.number a)) (.atom (.number b))
  | boolean {b} : Equal (.atom (.boolean b)) (.atom (.boolean b))
  | text {t} : Equal (.atom (.text t)) (.atom (.text t))
  | closure {c d} (same : c.same d = true) : Equal (.closure c) (.closure d)
  | quoted {e f} (same : e.same f = true) : Equal (.quoted e) (.quoted f)

theorem sameValue_iff {v w : Value} : v.sameValue w = true ↔ v.Equal w := by
  constructor
  · intro same
    unfold sameValue at same
    split at same
    · exact .number same
    · obtain rfl := of_decide_eq_true same
      exact .boolean
    · obtain rfl := of_decide_eq_true same
      exact .text
    · exact .closure same
    · exact .quoted same
    · cases same
  · rintro (equals | _ | _ | same | same)
    · exact equals
    · exact decide_eq_true rfl
    · exact decide_eq_true rfl
    · exact same
    · exact same

theorem Equal.symm {v w : Value} : v.Equal w → w.Equal v
  | .number equals => .number (Number.equals_symm equals)
  | .boolean => .boolean
  | .text => .text
  | .closure same => .closure (Closure.same_symm same)
  | .quoted same => .quoted (Expr.same_symm same)

theorem Equal.trans {u v w : Value} (first : u.Equal v) (second : v.Equal w) : u.Equal w := by
  cases first with
  | number equals =>
    cases second with
    | number further => exact .number (Number.equals_trans equals further)
  | closure same =>
    cases second with
    | closure further => exact .closure (by rw [Closure.same_congr same, further])
  | quoted same =>
    cases second with
    | quoted further => exact .quoted (by rw [Expr.same_congr same, further])
  | _ => exact second

/-- Of all values only a NaN differs from itself. -/
theorem equal_self_iff {v : Value} : v.Equal v ↔ ∀ mark, v ≠ .atom (.number (.float (.nan mark))) := by
  constructor
  · rintro equal mark rfl
    cases equal with
    | number equals => exact (Number.equals_self_iff _).mp equals mark rfl
  · intro datum
    match v with
    | .atom (.number a) =>
      have notNaN : ∀ mark, a ≠ .float (.nan mark) := fun mark nan => datum mark (nan ▸ rfl)
      exact .number (a.equals_self_iff.mpr notNaN)
    | .atom (.boolean _) => exact .boolean
    | .atom (.text _) => exact .text
    | .closure c => exact .closure c.same_refl
    | .quoted e => exact .quoted e.same_refl

/-- What equals a number is a number, and the same rational number or the same infinity. -/
theorem equal_number_iff {a : Number} {v : Value} :
    Equal (.atom (.number a)) v ↔
      ∃ b, v = .atom (.number b) ∧ ((∃ q, a.rational? = some q ∧ b.rational? = some q) ∨
        ∃ negative, a = .float (.infinite negative) ∧ b = .float (.infinite negative)) := by
  constructor
  · intro equal
    cases equal with
    | number equals => exact ⟨_, rfl, Number.equals_iff_rational.mp equals⟩
  · rintro ⟨b, rfl, same⟩
    exact .number (Number.equals_iff_rational.mpr same)

/-- A binary64 number is at most one integer. -/
theorem eq_of_equal_integer {x : Binary64} {m n : Int}
    (first : Equal (.atom (.number (.float x))) (.atom (.number (.integer m))))
    (second : Equal (.atom (.number (.float x))) (.atom (.number (.integer n)))) : m = n := by
  cases first.symm.trans second with
  | number equals => exact of_decide_eq_true equals

end Value

/-! ## Comparing what names are bound to -/

/-- The comparison takes as many levels as the shallower of the values asks for, wherever the frames of closures
    lead. -/
theorem evaluate_comparison (channel : Channel) {levels : Nat} {x y : Text} {v w : Value} {env : Env}
    {before : Progress} (left : before.store.lookup x env = some v) (right : before.store.lookup y env = some w)
    (enough : 3 * min v.depth w.depth ≤ 2 * (levels + 1)) :
    evaluate channel (levels + 2) (.binary (lit "=") (.var x) (.var y)) env before =
      (.success (.truth (v.sameValue w)), before.tick) := by
  have known : BinaryOperator.ofGlyph? (lit "=") = some .equal := by decide
  have granted : BinaryOperator.canCompare (levels + 1) v w = true := decide_eq_true enough
  rw [evaluate_binary, known]
  change (evaluate channel (levels + 1) (.var x) env >>= _) before = _
  rw [Eval.bind_of_success (evaluate_var_of_lookup channel levels env left),
    Eval.bind_of_success (evaluate_var_of_lookup channel levels env right), Eval.operate_apply]
  simp only [BinaryOperator.apply, BinaryOperator.arithmetic?, granted, if_true]

/-- A name that is bound recursively is found in the new frame, as a closure over that frame. -/
theorem exists_closure_of_recursive {lambdas : List (Text × List Text × Expr)} {name : Text}
    (bound : name ∈ lambdas.map (·.1)) (inner : Env) :
    ∃ c : Closure, c.env = inner ∧
      (Table.ofPairs (Eval.recursivePairs lambdas inner)).find? name = some (.closure c) := by
  have present : (Table.ofPairs lambdas).find? name ≠ none := by
    rw [ne_eq, Table.find?_ofPairs_eq_none]
    exact not_not_intro bound
  obtain ⟨lambda, found⟩ := Option.ne_none_iff_exists'.mp present
  refine ⟨⟨lambda.1, lambda.2, inner⟩, rfl, ?_⟩
  rw [find?_recursivePairs, found]
  rfl

/-- Equality is symmetric and transitive, and of all values only a NaN differs from itself. Numbers are equal if they
    are one rational number or one infinity, so a float equals at most one integer. A closure in its own frame is
    compared within levels that depend on code alone. -/
theorem sameValue_partialEquivalence :
    (∀ v w : Value, v.sameValue w = w.sameValue v) ∧
      (∀ u v w : Value, u.sameValue v = true → v.sameValue w = true → u.sameValue w = true) ∧
      (∀ v : Value, v.sameValue v = true ↔ ∀ mark, v ≠ .atom (.number (.float (.nan mark)))) ∧
      (∀ (a : Number) (v : Value), (Value.atom (.number a)).sameValue v = true ↔
        ∃ b, v = .atom (.number b) ∧ ((∃ q, a.rational? = some q ∧ b.rational? = some q) ∨
          ∃ negative, a = .float (.infinite negative) ∧ b = .float (.infinite negative))) ∧
      (∀ (x : Binary64) (m n : Int),
        (Value.atom (.number (.float x))).sameValue (.atom (.number (.integer m))) = true →
          (Value.atom (.number (.float x))).sameValue (.atom (.number (.integer n))) = true → m = n) ∧
      ∀ (channel : Channel) (levels : Nat) (lambdas : List (Text × List Text × Expr)) (name other : Text) (env : Env)
        (before : Progress) (w : Value),
        let inner := before.store.next env
        let filled := before.push (.ofPairs (Eval.recursivePairs lambdas inner))
        name ∈ lambdas.map (·.1) → filled.store.lookup other inner = some w →
          ∃ c : Closure, c.env = inner ∧
            (filled.store.bindings before.store.frames.size).find? name = some (.closure c) ∧
            (3 * min c.body.depth w.depth ≤ 2 * (levels + 1) →
              evaluate channel (levels + 3)
                  (.letRec (lambdaBindings lambdas) (.binary (lit "=") (.var name) (.var other))) env before =
                (.success (.truth ((Value.closure c).sameValue w)), filled.tick)) := by
  refine ⟨fun v w => ?_, fun u v w first second => ?_, fun v => ?_, fun a v => ?_, fun x m n first second => ?_, ?_⟩
  · rw [Bool.eq_iff_iff, Value.sameValue_iff, Value.sameValue_iff]
    exact ⟨.symm, .symm⟩
  · rw [Value.sameValue_iff] at first second ⊢
    exact first.trans second
  · rw [Value.sameValue_iff]
    exact Value.equal_self_iff
  · rw [Value.sameValue_iff]
    exact Value.equal_number_iff
  · rw [Value.sameValue_iff] at first second
    exact Value.eq_of_equal_integer first second
  · intro channel levels lambdas name other env before w inner filled bound right
    obtain ⟨c, captured, found⟩ := exists_closure_of_recursive bound inner
    have stored : (filled.store.bindings before.store.frames.size).find? name = some (.closure c) := by
      change ((before.store.push _).bindings _).find? name = _
      rw [Store.bindings_push_size, found]
    have left : filled.store.lookup name inner = some (.closure c) :=
      Store.lookup_push_of_find? found before.store env
    refine ⟨c, captured, stored, fun enough => ?_⟩
    rw [evaluate_letRec_of_lambdas]
    exact evaluate_comparison channel left right enough

/-- The largest binary64 number. -/
def largest : Binary64 := .finite false ⟨Nat.pow 2 53 - 1, 2045, by decide, by decide, .inr (by decide)⟩

/-- The body of a function that calls itself. -/
def selfCall : Expr := .apply (.var (lit "f")) [.var (lit "x")]

/-- The closure that captures the first frame and is bound there. -/
def knotted : Closure := ⟨[lit "x"], selfCall, [0]⟩

/-- The zero of the integers lies between the two zeros of binary64, the largest binary64 number is one integer, however
    that is written, and a closure in its own frame equals itself. -/
theorem sameValue_partialEquivalence_knotted :
    let number (a : Number) : Value := .atom (.number a)
    (number (.float (.zero false))).sameValue (number (.float (.zero true))) = true ∧
      ((2 ^ 53 - 1) * 2 ^ 971 : Int) = 2 ^ 1024 - 2 ^ 971 ∧
      evaluate .silence 5
          (.letRec (lambdaBindings [(lit "f", [lit "x"], selfCall)])
            (.binary (lit "=") (.var (lit "f")) (.var (lit "f")))) [] (.start .empty) =
        (.success (.truth true), ((Progress.start .empty).push (.ofPairs [(lit "f", .closure knotted)])).tick) := by
  intro number
  obtain ⟨_, trans, itself, _, integer, recursive⟩ := sameValue_partialEquivalence
  have product : (number (.float largest)).sameValue (number (.integer ((2 ^ 53 - 1) * 2 ^ 971))) = true := by
    decide +kernel
  have difference : (number (.float largest)).sameValue (number (.integer (2 ^ 1024 - 2 ^ 971))) = true := by
    decide +kernel
  refine ⟨trans _ (number (.integer 0)) _ (by decide +kernel) (by decide +kernel),
    integer _ _ _ product difference, ?_⟩
  obtain ⟨c, _, stored, run⟩ :=
    recursive .silence 2 [(lit "f", [lit "x"], selfCall)] (lit "f") (lit "f") [] (.start .empty) (.closure knotted)
      (by decide) rfl
  obtain rfl : knotted = c := Value.closure.inj (Option.some.inj stored)
  rw [run (by decide), (itself (.closure knotted)).mpr nofun]
  rfl

end CallByValue
