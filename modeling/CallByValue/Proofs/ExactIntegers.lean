import CallByValue.Proofs.HeapShape
import CallByValue.Proofs.Provisions

/-!
# Exact integers

Where no float is written down, none is bound and nothing is divided, a run never
leaves the integers: sums, differences and products are exact however large they
grow, and no operation fails.
-/

namespace CallByValue

/-! ## Code and values without floats -/

/-- Outside everything that `say` says, neither a float nor a division stands in the expression. -/
def Expr.Integral (e : Expr) : Prop :=
  ∀ part : Expr, part.StandsIn e → (∀ x, part ≠ .literal (.number (.float x))) ∧
    ∀ left right, part ≠ .binary BinaryOperator.div.glyph left right

/-- The value is no number, or it is an integer. -/
def Value.Integral (v : Value) : Prop := ∀ n, v.number? = some n → ∃ i, n = .integer i

/-- What an operator makes of integers, where it stays within them. -/
def BinaryOperator.exact? : BinaryOperator → Option (Int → Int → Int)
  | add => some (· + ·)
  | sub => some (· - ·)
  | mul => some (· * ·)
  | _ => none

namespace Expr

theorem integral_iff {e : Expr} : e.Integral ↔
    ((∀ x, e ≠ .literal (.number (.float x))) ∧ ∀ left right, e ≠ .binary BinaryOperator.div.glyph left right) ∧
      ∀ inner ∈ e.inside, inner.Integral := by
  constructor
  · intro integral
    refine ⟨integral e (.refl e), fun inner member part stands => ?_⟩
    exact integral part (stands.trans (standsIn_of_mem member))
  · rintro ⟨here, within⟩ part stands
    rcases standsIn_iff.mp stands with rfl | ⟨inner, member, further⟩
    · exact here
    · exact within inner member part further

theorem integral_var (name : Text) : (var name).Integral := integral_iff.mpr ⟨⟨nofun, nofun⟩, nofun⟩

theorem integral_integer (n : Int) : (literal (.number (.integer n))).Integral :=
  integral_iff.mpr ⟨⟨nofun, nofun⟩, nofun⟩

theorem integral_combinator : combinator.Integral := by
  intro part stands
  rcases form_of_standsIn_combinator stands with ⟨_, rfl⟩ | ⟨_, _, rfl⟩ | ⟨_, _, rfl⟩ <;> exact ⟨nofun, nofun⟩

theorem Integral.fixedPoint {functional : Expr} (integral : functional.Integral) :
    (fixedPoint functional).Integral := by
  rw [fixedPoint_eq, integral_iff]
  refine ⟨⟨nofun, nofun⟩, fun inner member => ?_⟩
  rcases List.mem_cons.mp member with rfl | argument
  · exact integral_combinator
  · obtain rfl := List.mem_singleton.mp argument
    exact integral

theorem Integral.inside {e part : Expr} (integral : e.Integral) (member : part ∈ e.inside) : part.Integral :=
  (integral_iff.mp integral).2 part member

end Expr

namespace BinaryOperator

variable {op : BinaryOperator} {mark : Nat}

theorem arithmetic?_of_exact? (mark : Nat) {f : Int → Int → Int} (exact : op.exact? = some f) :
    ∃ g, op.arithmetic? mark = some g ∧ ∀ m n, g (.integer m) (.integer n) = .ok (.integer (f m n)) := by
  cases op <;> cases exact <;> exact ⟨_, rfl, fun _ _ => rfl⟩

/-- An operator with an arithmetic stays within the integers unless it divides. -/
theorem exact?_of_arithmetic? {g : Number → Number → Except ArithmeticFault Number}
    (arithmetic : op.arithmetic? mark = some g) (other : op ≠ .div) : ∃ f, op.exact? = some f ∧
      ∀ m n, g (.integer m) (.integer n) = .ok (.integer (f m n)) := by
  cases op with
  | div => exact absurd rfl other
  | equal => cases arithmetic
  | _ => cases arithmetic; exact ⟨_, rfl, fun _ _ => rfl⟩

end BinaryOperator

/-- A datum that is no float. -/
def Atom.Integral (a : Atom) : Prop := ∀ x, a ≠ .number (.float x)

theorem Atom.Integral.exists_integer {n : Number} (integral : (Atom.number n).Integral) : ∃ i, n = .integer i := by
  cases n with
  | integer i => exact ⟨i, rfl⟩
  | float x => exact absurd rfl (integral x)

/-- Where nothing is divided, arithmetic makes an integer of integers. -/
theorem Expr.Integral.exists_result {op : BinaryOperator} {left right : Expr} {mark : Nat}
    {g : Number → Number → Except ArithmeticFault Number} {x y : Number}
    (integral : (Expr.binary op.glyph left right).Integral) (arithmetic : op.arithmetic? mark = some g)
    (first : (Atom.number x).Integral) (second : (Atom.number y).Integral) : ∃ i, g x y = .ok (.integer i) := by
  have undivided : op ≠ .div := by
    rintro rfl
    exact (Expr.integral_iff.mp integral).1.2 _ _ rfl
  obtain ⟨f, _, computes⟩ := BinaryOperator.exact?_of_arithmetic? arithmetic undivided
  obtain ⟨m, rfl⟩ := first.exists_integer
  obtain ⟨n, rfl⟩ := second.exists_integer
  exact ⟨f m n, computes m n⟩

/-- Code without floats and divisions, and data that are no floats. -/
def Provision.integral : Provision where
  code := Expr.Integral
  function _ body := body.Integral
  said _ := True
  atom := Atom.Integral
  quoted _ := True
  tolerates _ := False
  inside integral member := integral.inside member
  unrolled integral := (integral.inside List.mem_cons_self).fixedPoint
  lambda integral := integral.inside List.mem_cons_self
  called integral := integral
  spoken _ := ⟨trivial, trivial⟩
  literal integral x same := (Expr.integral_iff.mp integral).1.1 x (congrArg Expr.literal same)
  truth _ _ := nofun
  computed integral arithmetic first second result := by
    obtain ⟨i, computes⟩ := integral.exists_result arithmetic first second
    rw [computes] at result
    cases result
    exact nofun
  faulty integral arithmetic first second result := by
    obtain ⟨i, computes⟩ := integral.exists_result arithmetic first second
    rw [computes] at result
    cases result

theorem Provision.integral_of_provides {watched : Nat → Prop} {v : Value}
    (provided : Provision.integral.Provides watched v) : v.Integral :=
  fun _ number => (provides_of_number? provided number).exists_integer

/-! ## Runs -/

/-- An operator that stays within the integers makes exactly one integer of two. -/
theorem evaluate_exact {channel : Channel} {levels : Nat} {left right : Expr} {env : Env} {now mid last : Progress}
    {op : BinaryOperator} {f : Int → Int → Int} {m n : Int} (exact : op.exact? = some f)
    (first : evaluate channel levels left env now = (.success (.atom (.number (.integer m))), mid))
    (second : evaluate channel levels right env mid = (.success (.atom (.number (.integer n))), last)) :
    evaluate channel (levels + 1) (.binary op.glyph left right) env now =
      (.success (.atom (.number (.integer (f m n)))), last.tick) := by
  obtain ⟨g, arithmetic, computes⟩ := BinaryOperator.arithmetic?_of_exact? last.store.nextMark exact
  rw [evaluate_binary, BinaryOperator.ofGlyph?_glyph]
  change (evaluate channel levels left env >>= fun a => evaluate channel levels right env >>= fun b =>
    Eval.operate op levels a b) now = _
  rw [Eval.bind_of_success first, Eval.bind_of_success second, Eval.operate_apply, BinaryOperator.apply, arithmetic]
  simp only [Value.number?, computes]

section
variable {channel : Channel} {root v : Visit}

/-- No float and no division stands in what a visit begins with, or in what can be reached from there. -/
structure Visit.Integral (root : Visit) : Prop where
  code : root.expr.Integral
  functions : ∀ c, root.before.store.Reaches root.env c → c.body.Integral
  data : ∀ x, ¬ root.before.store.Holds root.env (.atom (.number (.float x)))

theorem Visit.Integral.covers (integral : root.Integral) :
    Provision.integral.Covers (root.before.store.Watches root.env) root.before.said.toList root.before := by
  refine Provision.covers_of_holds fun v held => ?_
  cases v with
  | atom a =>
    rintro x rfl
    exact integral.data x held
  | closure c => exact ⟨integral.functions c (Store.holds_closure_iff.mp held), fun _ _ => trivial⟩
  | quoted operand => trivial

theorem Visit.Integral.reached (integral : root.Integral) (reached : root.LeadsTo channel v) :
    (Provision.integral.Covers (root.before.store.Watches root.env) root.before.said.toList v.before ∧
      Provision.integral.Admits (root.before.store.Watches root.env) v.env v.expr) ∧
    Provision.integral.Covers (root.before.store.Watches root.env) root.before.said.toList (v.run channel).2 ∧
      (v.run channel).1.Satisfies (Provision.integral.Provides (root.before.store.Watches root.env))
        (Provision.integral.Permits (root.before.store.Watches root.env)) :=
  integral.covers.reached ⟨integral.code, fun _ inside => .inr (.inl inside)⟩ reached

/-- A number that a visit of the run comes to is an integer. -/
theorem Visit.Integral.exists_integer (integral : root.Integral) (reached : root.LeadsTo channel v) {n : Number}
    (success : (v.run channel).1 = .success (.atom (.number n))) : ∃ i, n = .integer i := by
  obtain ⟨_, _, satisfied⟩ := integral.reached reached
  rw [success] at satisfied
  have provided : Provision.integral.Provides (root.before.store.Watches root.env) (.atom (.number n)) := satisfied
  exact Provision.integral_of_provides provided n rfl

end

/-- An expression without floats and divisions, in an environment that gives access to none, stays within the
    integers. Of everything that the run visits, arguments included, every number that comes out is an integer, and
    so is every number in a frame that is made or could be reached. No visit fails over a division or a number too
    large, and what `+`, `-` and `*` make of two numbers is their exact sum, difference or product. -/
theorem evaluate_integral (channel : Channel) (levels : Nat) {e : Expr} {env : Env} {before : Progress}
    (code : e.Integral) (functions : ∀ c, before.store.Reaches env c → c.body.Integral)
    (data : ∀ x, ¬ before.store.Holds env (.atom (.number (.float x)))) :
    (∀ v, Visit.LeadsTo channel ⟨levels, e, env, before⟩ v →
      (∀ w, (v.run channel).1.carried? = some w → w.Integral) ∧ (v.run channel).1 ≠ .failure .divisionByZero ∧
        ∀ glyph, (v.run channel).1 ≠ .failure (.overflow glyph)) ∧
    (∀ now, Visit.Passes channel ⟨levels, e, env, before⟩ now → ∀ frame, before.store.Watches env frame →
      ∀ name w, (now.store.bindings frame).find? name = some w → w.Integral) ∧
    ∀ (op : BinaryOperator) (f : Int → Int → Int) (few : Nat) (left right : Expr) (inner : Env)
      (now mid last : Progress) (x y : Number), op.exact? = some f →
      Visit.LeadsTo channel ⟨levels, e, env, before⟩ ⟨few + 1, .binary op.glyph left right, inner, now⟩ →
      evaluate channel few left inner now = (.success (.atom (.number x)), mid) →
      evaluate channel few right inner mid = (.success (.atom (.number y)), last) →
      ∃ m n, x = .integer m ∧ y = .integer n ∧
        evaluate channel (few + 1) (.binary op.glyph left right) inner now =
          (.success (.atom (.number (.integer (f m n)))), last.tick) := by
  have integral : Visit.Integral ⟨levels, e, env, before⟩ := ⟨code, functions, data⟩
  refine ⟨fun v reached => ?_, ?_, ?_⟩
  · obtain ⟨_, _, satisfied⟩ := integral.reached reached
    refine ⟨fun w carried => ?_, ?_, ?_⟩
    · exact Provision.integral_of_provides (Provision.provides_of_carried? satisfied carried)
    · intro failed
      rw [failed] at satisfied
      exact satisfied
    · intro glyph failed
      rw [failed] at satisfied
      exact satisfied
  · intro now passes frame watched name w found
    cases passes with
    | before reached =>
      obtain ⟨⟨covers, _⟩, _⟩ := integral.reached reached
      exact Provision.integral_of_provides (covers.entries frame watched name w found)
    | after reached =>
      obtain ⟨_, covers, _⟩ := integral.reached reached
      exact Provision.integral_of_provides (covers.entries frame watched name w found)
  · intro op f few left right inner now mid last x y exact reached first second
    have known := BinaryOperator.ofGlyph?_glyph op
    obtain ⟨m, rfl⟩ := integral.exists_integer (reached.tail (.binary known .here)) (congrArg Prod.fst first)
    obtain ⟨n, rfl⟩ := integral.exists_integer (reached.tail (.binary known (.later first .here)))
      (congrArg Prod.fst second)
    exact ⟨m, n, rfl, rfl, evaluate_exact exact first second⟩

/-- A function that squares, under a name in the first frame. -/
def square : Closure := ⟨[lit "n"], .binary (lit "*") (.var (lit "n")) (.var (lit "n")), []⟩

def squareStore : Store := ⟨#[.ofPairs [(lit "square", .closure square)]], 1⟩

/-- The square of an odd integer beyond those that floats tell apart. -/
def squareCall : Expr := .apply (.var (lit "square")) [.literal (.number (.integer 9007199254740993))]

theorem integral_squareCall : squareCall.Integral := by
  refine Expr.integral_iff.mpr ⟨⟨nofun, nofun⟩, ?_⟩
  simp [squareCall, Expr.inside, Expr.children, Expr.integral_var, Expr.integral_integer]

theorem integral_body_square : square.body.Integral := by
  have undivided : lit "*" ≠ BinaryOperator.div.glyph := by decide
  refine Expr.integral_iff.mpr ⟨⟨nofun, fun _ _ same => undivided (Expr.binary.inj same).1⟩, ?_⟩
  simp [square, Expr.inside, Expr.children, Expr.integral_var]

theorem eq_square_of_holds {v : Value} (holds : squareStore.Holds [0] v) : v = .closure square := by
  obtain ⟨frame, name, _, found⟩ := holds
  obtain rfl : frame = 0 := Nat.lt_one_iff.mp (Store.lt_size_of_find? found)
  have entry : (Table.ofPairs [(lit "square", Value.closure square)]).find? name = some v := found
  exact congrArg Prod.snd (List.mem_singleton.mp (Table.mem_of_find?_ofPairs entry))

theorem evaluate_integral_square :
    (squareCall.Integral ∧ (∀ c, squareStore.Reaches [0] c → c.body.Integral) ∧
      ∀ x, ¬ squareStore.Holds [0] (.atom (.number (.float x)))) ∧
    (∀ glyph, (evaluate .silence 3 squareCall [0] (.start squareStore)).1 ≠ .failure (.overflow glyph)) ∧
      (evaluate .silence 3 squareCall [0] (.start squareStore)).1 =
        .success (.atom (.number (.integer 81129638414606699710187514626049))) := by
  have functions : ∀ c, squareStore.Reaches [0] c → c.body.Integral := by
    intro c reached
    cases eq_square_of_holds (Store.holds_closure_iff.mpr reached)
    exact integral_body_square
  have data : ∀ x, ¬ squareStore.Holds [0] (.atom (.number (.float x))) := by
    intro x holds
    cases eq_square_of_holds holds
  have run := @evaluate_integral .silence 3 squareCall [0] (.start squareStore) integral_squareCall functions data
  exact ⟨⟨integral_squareCall, functions, data⟩, (run.1 _ .refl).2.2, rfl⟩

end CallByValue
