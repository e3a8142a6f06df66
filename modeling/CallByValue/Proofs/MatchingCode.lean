import CallByValue.Proofs.Forms
import CallByValue.Proofs.Names
import CallByValue.Proofs.Sameness
import Mathlib.Data.List.Forall2

/-!
# Matching code

Two expressions of one form throughout, with the same names everywhere. Their
literals match as some relation has it, and so do the operands of `say`, which
are data rather than code. How strict both relations are decides what the match
is worth: under equality the expressions are one, and under sameness they are the
same.
-/

namespace CallByValue

namespace Expr

mutual

/-- Expressions of one form throughout, with matching literals and matching operands of `say`. -/
inductive Matches (literals : Atom → Atom → Prop) (quotes : Expr → Expr → Prop) : Expr → Expr → Prop
  | literal {a b} (values : literals a b) : Matches literals quotes (.literal a) (.literal b)
  | var (x) : Matches literals quotes (.var x) (.var x)
  | binary (g) {a b c d} (left : Matches literals quotes a c) (right : Matches literals quotes b d) :
      Matches literals quotes (.binary g a b) (.binary g c d)
  | say {a b} (operands : quotes a b) :
      Matches literals quotes (.unary UnaryOperator.say.glyph a) (.unary UnaryOperator.say.glyph b)
  | unary {g a b} (other : g ≠ UnaryOperator.say.glyph) (operands : Matches literals quotes a b) :
      Matches literals quotes (.unary g a) (.unary g b)
  | conditional {a b c d e f} (tests : Matches literals quotes a d) (yes : Matches literals quotes b e)
      (no : Matches literals quotes c f) : Matches literals quotes (.conditional a b c) (.conditional d e f)
  | lambda (ps) {a b} (bodies : Matches literals quotes a b) : Matches literals quotes (.lambda ps a) (.lambda ps b)
  | apply {f g as bs} (callees : Matches literals quotes f g) (args : AllMatch literals quotes as bs) :
      Matches literals quotes (.apply f as) (.apply g bs)
  | letIn {bs cs a b} (bound : BindingsMatch literals quotes bs cs) (bodies : Matches literals quotes a b) :
      Matches literals quotes (.letIn bs a) (.letIn cs b)
  | letRec {bs cs a b} (bound : BindingsMatch literals quotes bs cs) (bodies : Matches literals quotes a b) :
      Matches literals quotes (.letRec bs a) (.letRec cs b)
  | sequence {a b as bs} (first : Matches literals quotes a b) (rest : AllMatch literals quotes as bs) :
      Matches literals quotes (.sequence a as) (.sequence b bs)
  | fix {a b} (functionals : Matches literals quotes a b) : Matches literals quotes (.fix a) (.fix b)

inductive AllMatch (literals : Atom → Atom → Prop) (quotes : Expr → Expr → Prop) : List Expr → List Expr → Prop
  | nil : AllMatch literals quotes [] []
  | cons {a b as bs} (head : Matches literals quotes a b) (tail : AllMatch literals quotes as bs) :
      AllMatch literals quotes (a :: as) (b :: bs)

inductive BindingsMatch (literals : Atom → Atom → Prop) (quotes : Expr → Expr → Prop) :
    List (Text × Expr) → List (Text × Expr) → Prop
  | nil : BindingsMatch literals quotes [] []
  | cons (x) {a b as bs} (head : Matches literals quotes a b) (tail : BindingsMatch literals quotes as bs) :
      BindingsMatch literals quotes ((x, a) :: as) ((x, b) :: bs)

end

section
variable {literals : Atom → Atom → Prop} {quotes : Expr → Expr → Prop}

theorem AllMatch.forall₂ {as bs : List Expr} (all : AllMatch literals quotes as bs) :
    List.Forall₂ (Matches literals quotes) as bs := by
  induction as generalizing bs with
  | nil => cases all; exact .nil
  | cons a as ih =>
    cases all with
    | cons head tail => exact .cons head (ih tail)

theorem BindingsMatch.names_eq {bs cs : List (Text × Expr)} (bound : BindingsMatch literals quotes bs cs) :
    bs.map (·.1) = cs.map (·.1) := by
  induction bs generalizing cs with
  | nil => cases bound; rfl
  | cons b bs ih =>
    cases bound with
    | cons x head tail => simp [ih tail]

theorem BindingsMatch.forall₂ {bs cs : List (Text × Expr)} (bound : BindingsMatch literals quotes bs cs) :
    List.Forall₂ (Matches literals quotes) (bs.map (·.2)) (cs.map (·.2)) := by
  induction bs generalizing cs with
  | nil => cases bound; exact .nil
  | cons b bs ih =>
    cases bound with
    | cons x head tail => exact .cons head (ih tail)

/-! ## Under relations of some strictness -/

mutual

/-- Every expression matches itself, if literals and operands of `say` do. -/
theorem Matches.refl (literal : ∀ a, literals a a) (quote : ∀ e, quotes e e) : ∀ e : Expr, e.Matches literals quotes e
  | .literal a => .literal (literal a)
  | .var x => .var x
  | .binary g a b => .binary g (Matches.refl literal quote a) (Matches.refl literal quote b)
  | .unary g a => by
    by_cases say : g = UnaryOperator.say.glyph
    · exact say ▸ .say (quote a)
    · exact .unary say (Matches.refl literal quote a)
  | .conditional a b c =>
    .conditional (Matches.refl literal quote a) (Matches.refl literal quote b) (Matches.refl literal quote c)
  | .lambda ps a => .lambda ps (Matches.refl literal quote a)
  | .apply f as => .apply (Matches.refl literal quote f) (AllMatch.refl literal quote as)
  | .letIn bs a => .letIn (BindingsMatch.refl literal quote bs) (Matches.refl literal quote a)
  | .letRec bs a => .letRec (BindingsMatch.refl literal quote bs) (Matches.refl literal quote a)
  | .sequence a as => .sequence (Matches.refl literal quote a) (AllMatch.refl literal quote as)
  | .fix a => .fix (Matches.refl literal quote a)

theorem AllMatch.refl (literal : ∀ a, literals a a) (quote : ∀ e, quotes e e) :
    ∀ es : List Expr, AllMatch literals quotes es es
  | [] => .nil
  | e :: es => .cons (Matches.refl literal quote e) (AllMatch.refl literal quote es)

theorem BindingsMatch.refl (literal : ∀ a, literals a a) (quote : ∀ e, quotes e e) :
    ∀ bs : List (Text × Expr), BindingsMatch literals quotes bs bs
  | [] => .nil
  | (x, e) :: bs => .cons x (Matches.refl literal quote e) (BindingsMatch.refl literal quote bs)

end

mutual

/-- Under relations that imply sameness, expressions that match are the same. -/
theorem Matches.same (literal : ∀ {a b}, literals a b → a.same b = true)
    (quote : ∀ {e f}, quotes e f → e.same f = true) :
    ∀ {e f : Expr}, e.Matches literals quotes f → e.same f = true
  | _, _, .literal values => literal values
  | _, _, .var x => by simp [Expr.same]
  | _, _, .binary g left right => by simp [Expr.same, left.same literal quote, right.same literal quote]
  | _, _, .say operands => by simp [Expr.same, quote operands]
  | _, _, .unary other operands => by simp [Expr.same, operands.same literal quote]
  | _, _, .conditional tests yes no => by
    simp [Expr.same, tests.same literal quote, yes.same literal quote, no.same literal quote]
  | _, _, .lambda ps bodies => by simp [Expr.same, bodies.same literal quote]
  | _, _, .apply callees args => by simp [Expr.same, callees.same literal quote, args.same literal quote]
  | _, _, .letIn bound bodies => by simp [Expr.same, bound.same literal quote, bodies.same literal quote]
  | _, _, .letRec bound bodies => by simp [Expr.same, bound.same literal quote, bodies.same literal quote]
  | _, _, .sequence first rest => by simp [Expr.same, first.same literal quote, rest.same literal quote]
  | _, _, .fix functionals => by simp [Expr.same, functionals.same literal quote]

theorem AllMatch.same (literal : ∀ {a b}, literals a b → a.same b = true)
    (quote : ∀ {e f}, quotes e f → e.same f = true) :
    ∀ {es fs : List Expr}, AllMatch literals quotes es fs → sameAll es fs = true
  | _, _, .nil => rfl
  | _, _, .cons head tail => by simp [sameAll, head.same literal quote, tail.same literal quote]

theorem BindingsMatch.same (literal : ∀ {a b}, literals a b → a.same b = true)
    (quote : ∀ {e f}, quotes e f → e.same f = true) :
    ∀ {bs cs : List (Text × Expr)}, BindingsMatch literals quotes bs cs → sameBindings bs cs = true
  | _, _, .nil => rfl
  | _, _, .cons x head tail => by simp [sameBindings, head.same literal quote, tail.same literal quote]

end

mutual

/-- Expressions that match and are the same match in literals that are the same. -/
theorem Matches.and_same : ∀ {e f : Expr}, e.Matches literals quotes f → e.same f = true →
    e.Matches (fun a b => literals a b ∧ a.same b = true) (fun a b => a.same b = true) f
  | _, _, .literal values, h => .literal ⟨values, h⟩
  | _, _, .var x, _ => .var x
  | _, _, .binary g left right, h => by
    simp only [Expr.same, Bool.and_eq_true] at h
    exact .binary g (left.and_same h.1.2) (right.and_same h.2)
  | _, _, .say _, h => by
    simp only [Expr.same, Bool.and_eq_true] at h
    exact .say h.2
  | _, _, .unary other operands, h => by
    simp only [Expr.same, Bool.and_eq_true] at h
    exact .unary other (operands.and_same h.2)
  | _, _, .conditional tests yes no, h => by
    simp only [Expr.same, Bool.and_eq_true] at h
    exact .conditional (tests.and_same h.1.1) (yes.and_same h.1.2) (no.and_same h.2)
  | _, _, .lambda ps bodies, h => by
    simp only [Expr.same, Bool.and_eq_true] at h
    exact .lambda ps (bodies.and_same h.2)
  | _, _, .apply callees args, h => by
    simp only [Expr.same, Bool.and_eq_true] at h
    exact .apply (callees.and_same h.1) (args.and_same h.2)
  | _, _, .letIn bound bodies, h => by
    simp only [Expr.same, Bool.and_eq_true] at h
    exact .letIn (bound.and_same h.1) (bodies.and_same h.2)
  | _, _, .letRec bound bodies, h => by
    simp only [Expr.same, Bool.and_eq_true] at h
    exact .letRec (bound.and_same h.1) (bodies.and_same h.2)
  | _, _, .sequence first rest, h => by
    simp only [Expr.same, Bool.and_eq_true] at h
    exact .sequence (first.and_same h.1) (rest.and_same h.2)
  | _, _, .fix functionals, h => .fix (functionals.and_same h)

theorem AllMatch.and_same : ∀ {es fs : List Expr}, AllMatch literals quotes es fs → sameAll es fs = true →
    AllMatch (fun a b => literals a b ∧ a.same b = true) (fun a b => a.same b = true) es fs
  | _, _, .nil, _ => .nil
  | _, _, .cons head tail, h => by
    simp only [sameAll, Bool.and_eq_true] at h
    exact .cons (head.and_same h.1) (tail.and_same h.2)

theorem BindingsMatch.and_same : ∀ {bs cs : List (Text × Expr)}, BindingsMatch literals quotes bs cs →
    sameBindings bs cs = true →
    BindingsMatch (fun a b => literals a b ∧ a.same b = true) (fun a b => a.same b = true) bs cs
  | _, _, .nil, _ => .nil
  | _, _, .cons x head tail, h => by
    simp only [sameBindings, Bool.and_eq_true] at h
    exact .cons x (head.and_same h.1.2) (tail.and_same h.2)

end

end

mutual

/-- Expressions that match under equality are one expression. -/
theorem Matches.eq : ∀ {e f : Expr}, e.Matches Eq Eq f → e = f
  | _, _, .literal values => by rw [values]
  | _, _, .var x => rfl
  | _, _, .binary g left right => by rw [left.eq, right.eq]
  | _, _, .say operands => by rw [operands]
  | _, _, .unary _ operands => by rw [operands.eq]
  | _, _, .conditional tests yes no => by rw [tests.eq, yes.eq, no.eq]
  | _, _, .lambda ps bodies => by rw [bodies.eq]
  | _, _, .apply callees args => by rw [callees.eq, args.eq]
  | _, _, .letIn bound bodies => by rw [bound.eq, bodies.eq]
  | _, _, .letRec bound bodies => by rw [bound.eq, bodies.eq]
  | _, _, .sequence first rest => by rw [first.eq, rest.eq]
  | _, _, .fix functionals => by rw [functionals.eq]

theorem AllMatch.eq : ∀ {es fs : List Expr}, AllMatch Eq Eq es fs → es = fs
  | _, _, .nil => rfl
  | _, _, .cons head tail => by rw [head.eq, tail.eq]

theorem BindingsMatch.eq : ∀ {bs cs : List (Text × Expr)}, BindingsMatch Eq Eq bs cs → bs = cs
  | _, _, .nil => rfl
  | _, _, .cons x head tail => by rw [head.eq, tail.eq]

end

/-! ## The combinator and recursive bindings -/

section
variable {literals : Atom → Atom → Prop} {quotes : Expr → Expr → Prop}

/-- The combinator holds no data, so it matches itself however strict the relations are. -/
theorem matches_combinator : combinator.Matches literals quotes combinator := by
  have again : Expr.again.Matches literals quotes Expr.again :=
    .apply (.apply (.var _) (.cons (.var _) .nil)) (.cons (.var _) .nil)
  have wrapped : wrapped.Matches literals quotes wrapped := .apply (.var _) (.cons (.lambda _ again) .nil)
  have wrapper : wrapper.Matches literals quotes wrapper := .lambda _ wrapped
  exact .lambda _ (.apply wrapper (.cons wrapper .nil))

theorem Matches.fixedPoint {e f : Expr} (functionals : e.Matches literals quotes f) :
    (fixedPoint e).Matches literals quotes (fixedPoint f) :=
  .apply matches_combinator (.cons functionals .nil)

/-- Of expressions that match both are lambdas or neither is. -/
theorem Matches.isLambda_cases {e f : Expr} (code : e.Matches literals quotes f) :
    (e.isLambda = false ∧ f.isLambda = false) ∨
      ∃ ps a b, e = .lambda ps a ∧ f = .lambda ps b ∧ a.Matches literals quotes b := by
  cases code with
  | lambda ps bodies => exact .inr ⟨ps, _, _, rfl, rfl, bodies⟩
  | _ => exact .inl ⟨rfl, rfl⟩

/-- Lambdas of one name and the same parameters, with matching bodies. -/
def LambdasMatch (literals : Atom → Atom → Prop) (quotes : Expr → Expr → Prop) (l m : Text × List Text × Expr) : Prop :=
  l.1 = m.1 ∧ l.2.1 = m.2.1 ∧ l.2.2.Matches literals quotes m.2.2

/-- Bindings that match are refused for one name, or they bind lambdas that match. -/
theorem BindingsMatch.lambdasOf_cases {bs cs : List (Text × Expr)} (bound : BindingsMatch literals quotes bs cs) :
    (∃ name, lambdasOf bs = .error name ∧ lambdasOf cs = .error name) ∨
      ∃ ls ms, lambdasOf bs = .ok ls ∧ lambdasOf cs = .ok ms ∧ List.Forall₂ (LambdasMatch literals quotes) ls ms := by
  induction bs generalizing cs with
  | nil =>
    cases bound
    exact .inr ⟨[], [], rfl, rfl, .nil⟩
  | cons b bs ih =>
    cases bound with
    | cons x head tail =>
      rcases head.isLambda_cases with ⟨left, right⟩ | ⟨ps, a, b, rfl, rfl, bodies⟩
      · exact .inl ⟨x, lambdasOf_cons_other left, lambdasOf_cons_other right⟩
      · rw [lambdasOf_cons_lambda, lambdasOf_cons_lambda]
        rcases ih tail with ⟨name, left, right⟩ | ⟨ls, ms, left, right, lambdas⟩
        · exact .inl ⟨name, by rw [left]; rfl, by rw [right]; rfl⟩
        · exact .inr ⟨(x, ps, a) :: ls, (x, ps, b) :: ms, by rw [left]; rfl, by rw [right]; rfl,
            .cons ⟨rfl, rfl, bodies⟩ lambdas⟩

end

end Expr

end CallByValue
