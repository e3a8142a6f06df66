import CallByValue.Proofs.MatchingCode
import CallByValue.Proofs.PlainNumbers
import Mathlib.Logic.Relator

/-!
# Tolerances

How far the data of two runs may differ: a tolerance tells by a form that they
have in common which numbers stand for each other, and also which literals of the
code do and which quoted expressions. Two are of use. In the exact one only the
marks of NaNs differ; the numeric one takes data for each other that are the same
and of one kind, and also NaNs that are made later than some.
-/

namespace CallByValue

namespace Atom

/-- The kinds of data. -/
inductive Kind where
  | boolean
  | integer
  | float
  | text
deriving DecidableEq

def kind : Atom → Kind
  | .boolean _ => .boolean
  | .number (.integer _) => .integer
  | .number (.float _) => .float
  | .text _ => .text

/-- An atom with its number, if it is one, replaced. -/
def mapNumber (form : Number → Number) : Atom → Atom
  | .number n => .number (form n)
  | a => a

theorem unmarked_eq_mapNumber (a : Atom) : a.unmarked = a.mapNumber Number.unmarked := by
  cases a <;> rfl

theorem kind_mapNumber_plainSince (since : Nat) (a : Atom) : (a.mapNumber (Number.plainSince since)).kind = a.kind := by
  cases a with
  | number n => cases n <;> rfl
  | _ => rfl

end Atom

/-- Numbers that are the same and of one kind are the same when plain, and one NaN if they are NaNs. -/
theorem Number.plainSince_eq_of_same (since : Nat) {m n : Number}
    (kinds : (Atom.number m).kind = (Atom.number n).kind) (same : m.same n = true) :
    m.plainSince since = n.plainSince since := by
  rcases Bool.or_eq_true_iff.mp same with equal | identical
  · cases m with
    | integer i =>
      cases n with
      | integer j => exact congrArg integer (by simpa [equals] using equal)
      | float y => cases kinds
    | float x =>
      cases n with
      | integer j => cases kinds
      | float y =>
        refine congrArg float (Binary64.plainSince_eq_iff.mpr ⟨Binary64.plain_eq_of_equals equal, ?_⟩)
        rintro i j rfl rfl
        cases equal
  · rw [of_decide_eq_true identical]

/-- Data that are the same and of one kind are numbers that are the same, or one datum that is no number. -/
theorem Atom.cases_of_kind {a b : Atom} (kinds : a.kind = b.kind) (same : a.same b = true) :
    (∃ m n, a = .number m ∧ b = .number n ∧ m.same n = true) ∨ a = b ∧ ∀ n, a ≠ .number n := by
  cases a with
  | boolean x =>
    cases b with
    | boolean y =>
      refine .inr ⟨?_, nofun⟩
      cases x <;> cases y <;> first | rfl | cases same
    | number n => cases n <;> cases kinds
    | text t => cases kinds
  | number n =>
    cases b with
    | number m => exact .inl ⟨n, m, rfl, rfl, same⟩
    | boolean y => cases n <;> cases kinds
    | text t => cases n <;> cases kinds
  | text t =>
    cases b with
    | text u => exact .inr ⟨by simpa [Atom.same, numeric?] using same, nofun⟩
    | number n => cases n <;> cases kinds
    | boolean y => cases kinds

/-- Data that are the same and of one kind are the same when their numbers are plain. -/
theorem Atom.mapNumber_plainSince_eq (since : Nat) {a b : Atom} (kinds : a.kind = b.kind) (same : a.same b = true) :
    a.mapNumber (Number.plainSince since) = b.mapNumber (Number.plainSince since) := by
  rcases cases_of_kind kinds same with ⟨m, n, rfl, rfl, numbers⟩ | ⟨rfl, _⟩
  · exact congrArg number (Number.plainSince_eq_of_same since kinds numbers)
  · rfl

/-- Data that are the same when their numbers are plain are the same, or they are NaNs made since. -/
theorem Atom.same_of_mapNumber_plainSince {since : Nat} {a b : Atom}
    (forms : a.mapNumber (Number.plainSince since) = b.mapNumber (Number.plainSince since)) :
    a.same b = true ∨
      ∃ i j, since ≤ i ∧ a = .number (.float (.nan i)) ∧ b = .number (.float (.nan j)) := by
  cases a with
  | number m =>
    cases b with
    | number n =>
      obtain ⟨plains, marks⟩ := Number.plainSince_eq_iff.mp (Atom.number.inj forms)
      rcases Number.plain_cases plains with ⟨n, rfl, rfl⟩ | ⟨x, y, rfl, rfl, plain⟩
      · exact .inl (Atom.same_refl _)
      · have equals : x.equals y = x.equals x := by
          rw [← Binary64.equals_plain, ← plain, Binary64.equals_plain]
        cases x with
        | nan i =>
          cases y with
          | nan j =>
            by_cases older : i < since
            · have one : i = j := by
                have kept := marks i j rfl rfl
                omega
              subst one
              exact .inl (Atom.same_refl _)
            · exact .inr ⟨i, j, Nat.not_lt.mp older, rfl, rfl⟩
          | _ => cases plain
        | finite negative u =>
          refine .inl (Bool.or_eq_true_iff.mpr (.inl (equals.trans ?_)))
          simp [Binary64.equals]
        | infinite negative =>
          refine .inl (Bool.or_eq_true_iff.mpr (.inl (equals.trans ?_)))
          simp [Binary64.equals]
    | _ => cases forms
  | _ =>
    cases b with
    | number n => cases forms
    | _ => cases forms <;> exact .inl (Atom.same_refl _)

/-- Which numbers, which literals and which quoted expressions stand for each other. Numbers do that have
    a form in common, and neither comparisons nor calculations tell them apart, if the NaNs that calculations make
    have no marks below some mark. -/
structure Tolerance where
  since : Nat
  form : Number → Number
  literals : Atom → Atom → Prop
  quotes : Expr → Expr → Prop
  isZero_form : ∀ n, (form n).isZero = n.isZero
  equals_form : ∀ m n, (form m).equals (form n) = m.equals n
  arithmetic : ∀ (op : BinaryOperator) {mark mark' : Nat}, since ≤ mark → since ≤ mark' →
    (op.arithmetic? mark = none ∧ op.arithmetic? mark' = none) ∨
      ∃ f g, op.arithmetic? mark = some f ∧ op.arithmetic? mark' = some g ∧
        ∀ {m n m' n' : Number}, form m = form n → form m' = form n' → (f m m').map form = (g n n').map form
  literal_form : ∀ {a b}, literals a b → a.mapNumber form = b.mapNumber form
  literal_same : ∀ {a b}, literals a b → a.same b = true
  quote_same : ∀ {e f}, quotes e f → e.same f = true

namespace Tolerance

/-- Only the marks of NaNs may differ. -/
def exact : Tolerance where
  since := 0
  form := Number.unmarked
  literals := Eq
  quotes := Eq
  isZero_form := Number.isZero_unmarked
  equals_form := Number.equals_unmarked
  arithmetic op mark mark' _ _ := op.arithmetic?_cases mark mark'
  literal_form same := by rw [same]
  literal_same same := by rw [same, Atom.same_refl]
  quote_same same := by rw [same, Expr.same_refl]

/-- Data may differ that are the same and of one kind, or NaNs made since, and expressions that are the same. -/
def numeric (since : Nat) : Tolerance where
  since := since
  form := Number.plainSince since
  literals a b := a.kind = b.kind ∧ a.same b = true
  quotes e f := e.same f = true
  isZero_form := Number.isZero_plainSince since
  equals_form := Number.equals_plainSince since
  arithmetic op _ _ := op.arithmetic?_plainSince
  literal_form alike := Atom.mapNumber_plainSince_eq since alike.1 alike.2
  literal_same alike := alike.2
  quote_same same := same

end Tolerance

variable {t : Tolerance} {paired : Nat → Nat → Prop}

/-- Code that matches as far as a tolerance asks. -/
abbrev Tolerance.Code (t : Tolerance) : Expr → Expr → Prop := Expr.Matches t.literals t.quotes

theorem Tolerance.Code.same {e f : Expr} (code : t.Code e f) : e.same f = true :=
  Expr.Matches.same t.literal_same t.quote_same code

/-- Closures of matching lambdas over frames that are paired. -/
structure Closure.Matches (t : Tolerance) (paired : Nat → Nat → Prop) (c d : Closure) : Prop where
  params : c.params = d.params
  bodies : t.Code c.body d.body
  captured : List.Forall₂ paired c.env d.env

/-- Values that stand for each other, where frames are paired with frames. -/
inductive Value.Matches (t : Tolerance) (paired : Nat → Nat → Prop) : Value → Value → Prop
  | atom {a b : Atom} (forms : a.mapNumber t.form = b.mapNumber t.form) : Matches t paired (.atom a) (.atom b)
  | closure {c d : Closure} (closures : c.Matches t paired d) : Matches t paired (.closure c) (.closure d)
  | quoted {e f : Expr} (quotes : t.quotes e f) : Matches t paired (.quoted e) (.quoted f)

/-- Closures that match are equal to others on either side alike, as frames are paired one to one. -/
theorem Closure.Matches.same_eq (oneToOne : Relator.BiUnique paired) {c d c' d' : Closure}
    (first : c.Matches t paired d) (second : c'.Matches t paired d') : c.same c' = d.same d' := by
  have envs : c.env = c'.env ↔ d.env = d'.env :=
    Relator.rel_eq oneToOne.forall₂ first.captured second.captured
  unfold Closure.same
  rw [first.params, second.params, Expr.same_eq_of_same first.bodies.same second.bodies.same,
    decide_eq_decide.mpr envs]

namespace Value

theorem Matches.imp {wider : Nat → Nat → Prop} (implies : ∀ i j, paired i j → wider i j) {v w : Value}
    (values : v.Matches t paired w) : v.Matches t wider w := by
  cases values with
  | atom forms => exact .atom forms
  | closure closures => exact .closure ⟨closures.params, closures.bodies, closures.captured.imp implies⟩
  | quoted quotes => exact .quoted quotes

theorem Matches.isTrue_eq {v w : Value} (values : v.Matches t paired w) : v.isTrue = w.isTrue := by
  cases values with
  | @atom a b forms => cases a <;> cases b <;> simp_all [Atom.mapNumber, isTrue]
  | _ => rfl

/-- Of two values that match both are numbers, of one form, or neither is. -/
theorem Matches.number?_cases {v w : Value} (values : v.Matches t paired w) :
    (v.number? = none ∧ w.number? = none) ∨
      ∃ m n, v.number? = some m ∧ w.number? = some n ∧ t.form m = t.form n := by
  cases values with
  | @atom a b forms => cases a <;> cases b <;> simp_all [Atom.mapNumber, number?]
  | _ => exact .inl ⟨rfl, rfl⟩

theorem Matches.zeroTest_eq {v w : Value} (values : v.Matches t paired w) : v.zeroTest = w.zeroTest := by
  unfold zeroTest
  rcases values.number?_cases with ⟨hv, hw⟩ | ⟨m, n, hv, hw, forms⟩
  · rw [hv, hw]
  · simp only [hv, hw, ← t.isZero_form m, ← t.isZero_form n, forms]

theorem sameValue_mapNumber (a b : Atom) :
    (atom (a.mapNumber t.form)).sameValue (atom (b.mapNumber t.form)) = (atom a).sameValue (atom b) := by
  cases a with
  | number m =>
    cases b with
    | number n => exact t.equals_form m n
    | _ => rfl
  | _ => cases b <;> rfl

theorem Matches.depth_eq {v w : Value} (values : v.Matches t paired w) : v.depth = w.depth := by
  cases values with
  | atom forms => rfl
  | closure closures => exact (Expr.shape_eq_of_same closures.bodies.same).1
  | quoted quotes => exact (Expr.shape_eq_of_same (t.quote_same quotes)).1

/-- Equality of values that match comes out alike on either side. -/
theorem Matches.sameValue_eq (oneToOne : Relator.BiUnique paired) {v w v' w' : Value}
    (first : v.Matches t paired w) (second : v'.Matches t paired w') : v.sameValue v' = w.sameValue w' := by
  cases first with
  | @atom a b forms =>
    cases second with
    | @atom a' b' forms' => rw [← sameValue_mapNumber (t := t) a a', forms, forms', sameValue_mapNumber]
    | _ => cases a <;> cases b <;> rfl
  | closure closures =>
    cases second with
    | closure closures' => exact closures.same_eq oneToOne closures'
    | _ => rfl
  | quoted quotes =>
    cases second with
    | quoted quotes' => exact Expr.same_eq_of_same (t.quote_same quotes) (t.quote_same quotes')
    | _ => rfl

end Value

/-- An operator takes operands that match to results that match. -/
theorem BinaryOperator.apply_matches (op : BinaryOperator) {mark mark' : Nat} (levels : Nat) (fresh : t.since ≤ mark)
    (fresh' : t.since ≤ mark') (oneToOne : Relator.BiUnique paired) {v w v' w' : Value}
    (first : v.Matches t paired w) (second : v'.Matches t paired w') :
    (op.apply mark levels v v').Rel (Value.Matches t paired) (Failure.Rel (Value.Matches t paired))
      (op.apply mark' levels w w') := by
  refine op.apply_related (t.arithmetic op fresh fresh') (fun _ => .atom rfl)
    (fun forms => .atom (congrArg Atom.number forms)) Value.Matches.number?_cases first second
    (first.sameValue_eq oneToOne second) fun _ => ?_
  rw [canCompare, canCompare, first.depth_eq, second.depth_eq]

end CallByValue
