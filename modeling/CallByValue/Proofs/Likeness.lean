import CallByValue.Operators

/-!
# Likeness

Values that differ at most in what nobody is told: the marks by which NaNs are
told apart, and the frames that closures capture. Operators take like values to
like results, and like values and failures are put into words alike.
-/

namespace CallByValue

/-! ## Numbers without marks -/

namespace Binary64

/-- The number without its mark. -/
def unmarked : Binary64 → Binary64
  | .nan _ => .nan 0
  | x => x

@[simp] theorem unmarked_finite (negative : Bool) (m : Magnitude) :
    (finite negative m).unmarked = .finite negative m := rfl

@[simp] theorem unmarked_infinite (negative : Bool) : (infinite negative).unmarked = .infinite negative := rfl

@[simp] theorem unmarked_nan (mark : Nat) : (nan mark).unmarked = .nan 0 := rfl

@[simp] theorem unmarked_zero (negative : Bool) : (zero negative).unmarked = zero negative := rfl

@[simp] theorem unmarked_nearest (negative : Bool) (num den : Nat) :
    (nearest negative num den).unmarked = nearest negative num den := by
  unfold nearest
  split <;> rfl

theorem unmarked_neg (x : Binary64) : x.neg.unmarked = x.unmarked.neg := by
  cases x <;> rfl

theorem unmarked_add (mark : Nat) (x y : Binary64) : (add mark x y).unmarked = add 0 x.unmarked y.unmarked := by
  cases x <;> cases y <;> simp [add, apply_ite unmarked]

theorem unmarked_sub (mark : Nat) (x y : Binary64) : (sub mark x y).unmarked = sub 0 x.unmarked y.unmarked := by
  rw [sub, unmarked_add, unmarked_neg, sub]

theorem unmarked_mul (mark : Nat) (x y : Binary64) : (mul mark x y).unmarked = mul 0 x.unmarked y.unmarked := by
  cases x <;> cases y <;> simp [mul, apply_ite unmarked]

theorem unmarked_div (mark : Nat) (x y : Binary64) : (div mark x y).unmarked = div 0 x.unmarked y.unmarked := by
  cases x <;> cases y <;> simp [div, apply_ite unmarked]

theorem isZero_unmarked (x : Binary64) : x.unmarked.isZero = x.isZero := by
  cases x <;> rfl

theorem equals_unmarked (x y : Binary64) : x.unmarked.equals y.unmarked = x.equals y := by
  cases x <;> cases y <;> rfl

theorem equalsInt_unmarked (x : Binary64) (n : Int) : x.unmarked.equalsInt n = x.equalsInt n := by
  cases x <;> rfl

theorem unmarked_ofQuotient? {a b : Int} {x : Binary64} (quotient : ofQuotient? a b = some x) : x.unmarked = x := by
  obtain ⟨m, _, rfl⟩ := Option.map_eq_some_iff.mp quotient
  rfl

theorem text_unmarked (words : SpecialWords) (x : Binary64) : x.unmarked.text words = x.text words := by
  cases x <;> rfl

end Binary64

namespace Number

def unmarked : Number → Number
  | .integer n => .integer n
  | .float x => .float x.unmarked

theorem toBinary64?_unmarked (a : Number) : a.unmarked.toBinary64? = a.toBinary64?.map Binary64.unmarked := by
  cases a with
  | integer n =>
    change Binary64.ofInt? n = (Binary64.ofInt? n).map Binary64.unmarked
    unfold Binary64.ofInt?
    rw [Option.map_map]
    rfl
  | float x => rfl

theorem isZero_unmarked (a : Number) : a.unmarked.isZero = a.isZero := by
  cases a with
  | integer n => rfl
  | float x => exact x.isZero_unmarked

theorem equals_unmarked (a b : Number) : a.unmarked.equals b.unmarked = a.equals b := by
  cases a with
  | integer n =>
    cases b with
    | integer m => rfl
    | float y => exact y.equalsInt_unmarked n
  | float x =>
    cases b with
    | integer m => exact x.equalsInt_unmarked m
    | float y => exact x.equals_unmarked y

theorem text_unmarked (words : SpecialWords) (a : Number) : a.unmarked.text words = a.text words := by
  cases a with
  | integer n => rfl
  | float x => exact x.text_unmarked words

/-- Rounding both operands first does not look at marks either. -/
theorem rounded_unmarked {combine combine' : Binary64 → Binary64 → Binary64}
    (blind : ∀ x y, (combine x y).unmarked = combine' x.unmarked y.unmarked) (a b : Number) :
    (rounded combine a b).map unmarked = rounded combine' a.unmarked b.unmarked := by
  unfold rounded
  rw [toBinary64?_unmarked, toBinary64?_unmarked]
  cases a.toBinary64? with
  | none => rfl
  | some x =>
    cases b.toBinary64? with
    | none => rfl
    | some y => simp [Except.map, unmarked, blind]

theorem add_unmarked (mark : Nat) (a b : Number) : (add mark a b).map unmarked = add 0 a.unmarked b.unmarked := by
  cases a with
  | integer n =>
    cases b with
    | integer m => rfl
    | float y => exact rounded_unmarked (Binary64.unmarked_add mark) (.integer n) (.float y)
  | float x =>
    cases b with
    | integer m => exact rounded_unmarked (Binary64.unmarked_add mark) (.float x) (.integer m)
    | float y => exact rounded_unmarked (Binary64.unmarked_add mark) (.float x) (.float y)

theorem sub_unmarked (mark : Nat) (a b : Number) : (sub mark a b).map unmarked = sub 0 a.unmarked b.unmarked := by
  cases a with
  | integer n =>
    cases b with
    | integer m => rfl
    | float y => exact rounded_unmarked (Binary64.unmarked_sub mark) (.integer n) (.float y)
  | float x =>
    cases b with
    | integer m => exact rounded_unmarked (Binary64.unmarked_sub mark) (.float x) (.integer m)
    | float y => exact rounded_unmarked (Binary64.unmarked_sub mark) (.float x) (.float y)

theorem mul_unmarked (mark : Nat) (a b : Number) : (mul mark a b).map unmarked = mul 0 a.unmarked b.unmarked := by
  cases a with
  | integer n =>
    cases b with
    | integer m => rfl
    | float y => exact rounded_unmarked (Binary64.unmarked_mul mark) (.integer n) (.float y)
  | float x =>
    cases b with
    | integer m => exact rounded_unmarked (Binary64.unmarked_mul mark) (.float x) (.integer m)
    | float y => exact rounded_unmarked (Binary64.unmarked_mul mark) (.float x) (.float y)

theorem ratio_unmarked (n m : Int) : (ratio n m).map unmarked = ratio n m := by
  unfold ratio
  cases quotient : Binary64.ofQuotient? n m with
  | none => rfl
  | some x => exact congrArg (fun y => Except.ok (float y)) (Binary64.unmarked_ofQuotient? quotient)

theorem div_of_isZero (mark : Nat) {a b : Number} (zero : b.isZero = true) :
    div mark a b = .error .divisionByZero := by
  rw [div.eq_def, if_pos zero]

theorem div_integers (mark : Nat) {n m : Int} (nonzero : ¬ (integer m).isZero = true) :
    div mark (.integer n) (.integer m) = ratio n m := by
  rw [div.eq_def, if_neg nonzero]

theorem div_float_left (mark : Nat) {x : Binary64} {b : Number} (nonzero : ¬ b.isZero = true) :
    div mark (.float x) b = rounded (Binary64.div mark) (.float x) b := by
  rw [div.eq_def, if_neg nonzero]

theorem div_float_right (mark : Nat) {a : Number} {y : Binary64} (nonzero : ¬ (float y).isZero = true) :
    div mark a (.float y) = rounded (Binary64.div mark) a (.float y) := by
  rw [div.eq_def, if_neg nonzero]
  cases a <;> rfl

theorem div_unmarked (mark : Nat) (a b : Number) : (div mark a b).map unmarked = div 0 a.unmarked b.unmarked := by
  by_cases zero : b.isZero = true
  · rw [div_of_isZero mark zero, div_of_isZero 0 (by rw [isZero_unmarked, zero])]
    rfl
  · have nonzero : ¬ b.unmarked.isZero = true := by rwa [isZero_unmarked]
    cases b with
    | float y =>
      rw [div_float_right mark zero, rounded_unmarked (Binary64.unmarked_div mark)]
      exact (div_float_right 0 nonzero).symm
    | integer m =>
      cases a with
      | float x =>
        rw [div_float_left mark zero, rounded_unmarked (Binary64.unmarked_div mark)]
        exact (div_float_left 0 nonzero).symm
      | integer n =>
        rw [div_integers mark zero, ratio_unmarked]
        exact (div_integers 0 zero).symm

end Number

def Atom.unmarked : Atom → Atom
  | .number n => .number n.unmarked
  | a => a

theorem Atom.surface_unmarked (a : Atom) : a.unmarked.surface = a.surface := by
  cases a with
  | number n => exact n.text_unmarked surfaceWords
  | _ => rfl

/-! ## Values, failures and outcomes -/

variable {related : Closure → Closure → Prop}

/-- Atoms alike but for their marks, quoted expressions the same, and closures as some relation has it. -/
inductive Value.Rel (related : Closure → Closure → Prop) : Value → Value → Prop
  | atom {a b : Atom} (same : a.unmarked = b.unmarked) : Rel related (.atom a) (.atom b)
  | closure {c d : Closure} (corresponds : related c d) : Rel related (.closure c) (.closure d)
  | quoted (e : Expr) : Rel related (.quoted e) (.quoted e)

/-- Failures of one kind that say the same, over related values. -/
inductive Failure.Rel (related : Value → Value → Prop) : Failure → Failure → Prop
  | unbound (name : Text) : Rel related (.unbound name) (.unbound name)
  | divisionByZero : Rel related .divisionByZero .divisionByZero
  | notCallable {v w : Value} (corresponds : related v w) : Rel related (.notCallable v) (.notCallable w)
  | unknownOperator (glyph : Text) : Rel related (.unknownOperator glyph) (.unknownOperator glyph)
  | arityMismatch (expected given : Int) : Rel related (.arityMismatch expected given) (.arityMismatch expected given)
  | notANumber (glyph : Text) {v w : Value} (corresponds : related v w) :
      Rel related (.notANumber glyph v) (.notANumber glyph w)
  | notAFunction (name : Text) : Rel related (.notAFunction name) (.notAFunction name)
  | overflow (glyph : Text) : Rel related (.overflow glyph) (.overflow glyph)

/-- Outcomes of one kind: related values, related failures, or stops for one reason. -/
inductive Outcome.Rel {α β : Type} (related : α → β → Prop) (blamed : Failure → Failure → Prop) :
    Outcome α → Outcome β → Prop
  | success {a : α} {b : β} (corresponds : related a b) : Rel related blamed (.success a) (.success b)
  | failure {e f : Failure} (corresponds : blamed e f) : Rel related blamed (.failure e) (.failure f)
  | halted (h : Halt) : Rel related blamed (.halted h) (.halted h)

/-- Closures of one lambda. -/
def Closure.Alike (c d : Closure) : Prop := c.params = d.params ∧ c.body = d.body

/-- Values that nobody can tell apart by being shown them. -/
def Value.Alike : Value → Value → Prop := Value.Rel Closure.Alike

/-- Failures that say the same about values that are alike. -/
def Failure.Alike : Failure → Failure → Prop := Failure.Rel Value.Alike

def Outcome.Alike : Outcome Value → Outcome Value → Prop := Outcome.Rel Value.Alike Failure.Alike

theorem Value.Rel.imp {wider : Closure → Closure → Prop} (implies : ∀ c d, related c d → wider c d) {v w : Value}
    (corresponds : v.Rel related w) : v.Rel wider w := by
  cases corresponds with
  | atom same => exact .atom same
  | closure inner => exact .closure (implies _ _ inner)
  | quoted e => exact .quoted e

theorem Failure.Rel.imp {less more : Value → Value → Prop} (implies : ∀ v w, less v w → more v w) {e f : Failure}
    (corresponds : e.Rel less f) : e.Rel more f := by
  cases corresponds with
  | unbound name => exact .unbound name
  | divisionByZero => exact .divisionByZero
  | notCallable inner => exact .notCallable (implies _ _ inner)
  | unknownOperator glyph => exact .unknownOperator glyph
  | arityMismatch expected given => exact .arityMismatch expected given
  | notANumber glyph inner => exact .notANumber glyph (implies _ _ inner)
  | notAFunction name => exact .notAFunction name
  | overflow glyph => exact .overflow glyph

theorem Outcome.Rel.imp {α β : Type} {less more : α → β → Prop} {blamed accused : Failure → Failure → Prop}
    (implies : ∀ a b, less a b → more a b) (spared : ∀ e f, blamed e f → accused e f) {o : Outcome α} {q : Outcome β}
    (corresponds : o.Rel less blamed q) : o.Rel more accused q := by
  cases corresponds with
  | success inner => exact .success (implies _ _ inner)
  | failure inner => exact .failure (spared _ _ inner)
  | halted h => exact .halted h

theorem Value.Alike.shown_eq {v w : Value} (alike : v.Alike w) : v.shown = w.shown := by
  cases alike with
  | atom same => rw [shown, shown, ← Atom.surface_unmarked, same, Atom.surface_unmarked]
  | closure corresponds => rw [shown, shown, corresponds.1]
  | quoted e => rfl

theorem Failure.Alike.description_eq {e f : Failure} (alike : e.Alike f) : e.description = f.description := by
  cases alike with
  | notCallable corresponds => rw [description, description, Value.Alike.shown_eq corresponds]
  | notANumber glyph corresponds => rw [description, description, Value.Alike.shown_eq corresponds]
  | _ => rfl

/-- What a person is told of an outcome, or what stops the host from telling it. -/
def Outcome.answer (levels : Nat) : Outcome Value → Except Halt Text
  | .success v => v.render levels
  | .failure e => e.describe levels
  | .halted h => .error h

theorem Atom.obstacle?_unmarked (a : Atom) : a.unmarked.obstacle? = a.obstacle? := by
  cases a with
  | number n => cases n <;> rfl
  | _ => rfl

theorem Value.Alike.obstacle?_eq {v w : Value} (alike : v.Alike w) (levels : Nat) :
    v.obstacle? levels = w.obstacle? levels := by
  cases alike with
  | @atom a b same =>
    change a.obstacle? = b.obstacle?
    rw [← Atom.obstacle?_unmarked, same, Atom.obstacle?_unmarked]
  | _ => rfl

theorem Failure.Alike.obstacle?_eq {e f : Failure} (alike : e.Alike f) (levels : Nat) :
    e.obstacle? levels = f.obstacle? levels := by
  cases alike with
  | notCallable corresponds => exact Value.Alike.obstacle?_eq corresponds levels
  | notANumber glyph corresponds => exact Value.Alike.obstacle?_eq corresponds levels
  | _ => rfl

theorem Outcome.Alike.answer_eq {o q : Outcome Value} (alike : o.Alike q) (levels : Nat) :
    o.answer levels = q.answer levels := by
  cases alike with
  | success values =>
    simp only [answer, Value.render, Value.Alike.obstacle?_eq values levels, Value.Alike.shown_eq values]
  | failure failures =>
    simp only [answer, Failure.describe, Failure.Alike.obstacle?_eq failures levels,
      Failure.Alike.description_eq failures]
  | halted h => rfl

/-! ## Operators -/

namespace Value

theorem Rel.isTrue_eq {v w : Value} (corresponds : v.Rel related w) : v.isTrue = w.isTrue := by
  cases corresponds with
  | @atom a b same => cases a <;> cases b <;> simp_all [Atom.unmarked, isTrue]
  | _ => rfl

theorem Rel.number?_eq {v w : Value} (corresponds : v.Rel related w) :
    v.number?.map Number.unmarked = w.number?.map Number.unmarked := by
  cases corresponds with
  | @atom a b same =>
    cases a <;> cases b <;> simp_all [Atom.unmarked, number?]
  | _ => rfl

/-- Of two related values both are numbers, alike but for their marks, or neither is. -/
theorem Rel.number?_cases {v w : Value} (corresponds : v.Rel related w) :
    (v.number? = none ∧ w.number? = none) ∨
      ∃ m n, v.number? = some m ∧ w.number? = some n ∧ m.unmarked = n.unmarked := by
  have numbers := corresponds.number?_eq
  cases hv : v.number? with
  | none =>
    rw [hv] at numbers
    exact .inl ⟨rfl, Option.map_eq_none_iff.mp numbers.symm⟩
  | some m =>
    rw [hv] at numbers
    obtain ⟨n, hw, same⟩ := Option.map_eq_some_iff.mp numbers.symm
    exact .inr ⟨m, n, rfl, hw, same.symm⟩

theorem Rel.zeroTest_eq {v w : Value} (corresponds : v.Rel related w) : v.zeroTest = w.zeroTest := by
  unfold zeroTest
  rcases corresponds.number?_cases with ⟨hv, hw⟩ | ⟨m, n, hv, hw, same⟩
  · rw [hv, hw]
  · simp only [hv, hw, ← m.isZero_unmarked, ← n.isZero_unmarked, same]

theorem sameValue_unmarked (a b : Atom) :
    (atom a.unmarked).sameValue (atom b.unmarked) = (atom a).sameValue (atom b) := by
  cases a with
  | number m =>
    cases b with
    | number n => exact m.equals_unmarked n
    | _ => rfl
  | _ => cases b <;> rfl

/-- Equality of related values comes out the same if the relation keeps closures apart. -/
theorem Rel.sameValue_eq (apart : ∀ {c d c' d'}, related c d → related c' d' → c.same c' = d.same d')
    {v w v' w' : Value} (first : v.Rel related w) (second : v'.Rel related w') :
    v.sameValue v' = w.sameValue w' := by
  cases first with
  | @atom a b same =>
    cases second with
    | @atom a' b' same' => rw [← sameValue_unmarked a a', same, same', sameValue_unmarked]
    | _ => cases a <;> cases b <;> rfl
  | closure corresponds =>
    cases second with
    | closure corresponds' => exact apart corresponds corresponds'
    | _ => rfl
  | quoted e => cases second <;> rfl

theorem Rel.depth_eq (bodies : ∀ {c d}, related c d → c.body = d.body) {v w : Value} (corresponds : v.Rel related w) :
    v.depth = w.depth := by
  cases corresponds with
  | closure inner => exact congrArg Expr.depth (bodies inner)
  | _ => rfl

end Value

namespace BinaryOperator

/-- Either an operator is not arithmetic, or what it makes of two numbers depends on their marks only in
    the mark of the result. -/
theorem arithmetic?_cases (op : BinaryOperator) (mark mark' : Nat) :
    (op.arithmetic? mark = none ∧ op.arithmetic? mark' = none) ∨
      ∃ f g, op.arithmetic? mark = some f ∧ op.arithmetic? mark' = some g ∧
        ∀ {m n m' n' : Number}, m.unmarked = n.unmarked → m'.unmarked = n'.unmarked →
          (f m m').map Number.unmarked = (g n n').map Number.unmarked := by
  cases op with
  | add =>
    refine .inr ⟨_, _, rfl, rfl, fun left right => ?_⟩
    rw [Number.add_unmarked, left, right, Number.add_unmarked]
  | sub =>
    refine .inr ⟨_, _, rfl, rfl, fun left right => ?_⟩
    rw [Number.sub_unmarked, left, right, Number.sub_unmarked]
  | mul =>
    refine .inr ⟨_, _, rfl, rfl, fun left right => ?_⟩
    rw [Number.mul_unmarked, left, right, Number.mul_unmarked]
  | div =>
    refine .inr ⟨_, _, rfl, rfl, fun left right => ?_⟩
    rw [Number.div_unmarked, left, right, Number.div_unmarked]
  | equal => exact .inl ⟨rfl, rfl⟩

/-- An operator takes operands to results as a relation has it which holds of numbers of one form, if
    neither comparing nor calculating tells such operands apart. -/
theorem apply_related (op : BinaryOperator) {mark mark' levels levels' : Nat} {form : Number → Number}
    {alike : Value → Value → Prop}
    (arithmetic : (op.arithmetic? mark = none ∧ op.arithmetic? mark' = none) ∨
      ∃ f g, op.arithmetic? mark = some f ∧ op.arithmetic? mark' = some g ∧
        ∀ {m n m' n' : Number}, form m = form n → form m' = form n' → (f m m').map form = (g n n').map form)
    (truth : ∀ b, alike (.truth b) (.truth b))
    (number : ∀ {m n : Number}, form m = form n → alike (.atom (.number m)) (.atom (.number n)))
    (numbers : ∀ {v w : Value}, alike v w → (v.number? = none ∧ w.number? = none) ∨
      ∃ m n, v.number? = some m ∧ w.number? = some n ∧ form m = form n)
    {v w v' w' : Value} (first : alike v w) (second : alike v' w') (equal : v.sameValue v' = w.sameValue w')
    (granted : op.arithmetic? mark = none → canCompare levels v v' = canCompare levels' w w') :
    (op.apply mark levels v v').Rel alike (Failure.Rel alike) (op.apply mark' levels' w w') := by
  unfold apply
  rcases arithmetic with ⟨hf, hg⟩ | ⟨f, g, hf, hg, blind⟩
  · rw [hf, hg]
    simp only [granted hf, equal]
    split
    · exact .success (truth _)
    · exact .halted _
  · rw [hf, hg]
    rcases numbers first with ⟨hv, hw⟩ | ⟨m, n, hv, hw, same⟩
    · simp only [hv, hw]
      exact .failure (.notANumber _ first)
    · rcases numbers second with ⟨hv', hw'⟩ | ⟨m', n', hv', hw', same'⟩
      · simp only [hv, hw, hv', hw']
        exact .failure (.notANumber _ second)
      · simp only [hv, hw, hv', hw']
        have results := blind same same'
        generalize f m m' = x at results ⊢
        generalize g n n' = y at results ⊢
        cases x with
        | ok a =>
          cases y with
          | ok b => exact .success (number (Except.ok.inj results))
          | error fault => cases results
        | error fault =>
          cases y with
          | ok b => cases results
          | error other =>
            cases Except.error.inj results
            cases fault
            · exact .failure .divisionByZero
            · exact .failure (.overflow _)

/-- An operator takes related operands to related results, if both sides have the levels that it needs to
    look into them. -/
theorem apply_rel (op : BinaryOperator) (mark mark' : Nat) {levels levels' : Nat} {v w v' w' : Value}
    (apart : ∀ {c d c' d'}, related c d → related c' d' → c.same c' = d.same d')
    (first : v.Rel related w) (second : v'.Rel related w')
    (granted : op.arithmetic? mark = none → canCompare levels v v' = canCompare levels' w w') :
    (op.apply mark levels v v').Rel (Value.Rel related) (Failure.Rel (Value.Rel related))
      (op.apply mark' levels' w w') :=
  op.apply_related (op.arithmetic?_cases mark mark') (fun _ => .atom rfl)
    (fun forms => .atom (congrArg Atom.number forms)) Value.Rel.number?_cases first second
    (first.sameValue_eq apart second) granted

end BinaryOperator

end CallByValue
