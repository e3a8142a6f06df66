import CallByValue.Proofs.Disciplines
import CallByValue.Proofs.Names
import Mathlib.Logic.Relation

/-!
# Where expressions stand

The expressions that an expression is made of. What `say` says is one of them, but
it is never evaluated, so it is kept apart: an expression stands in another one if
it can be found there without entering what some `say` says.
-/

namespace CallByValue.Expr

/-- The expressions directly inside an expression, in the order of the text. -/
def children : Expr → List Expr
  | .literal _ => []
  | .var _ => []
  | .binary _ a b => [a, b]
  | .unary _ a => [a]
  | .conditional a b c => [a, b, c]
  | .lambda _ a => [a]
  | .apply f as => f :: as
  | .letIn bs a => bs.map (·.2) ++ [a]
  | .letRec bs a => bs.map (·.2) ++ [a]
  | .sequence a as => a :: as
  | .fix a => [a]

/-- The expression that says another one. -/
def saying (operand : Expr) : Expr := .unary UnaryOperator.say.glyph operand

/-- The expressions directly inside an expression, but for what it says. -/
def inside (e : Expr) : List Expr :=
  match e with
  | .unary glyph operand => if glyph = UnaryOperator.say.glyph then [] else [operand]
  | e => e.children

/-- An expression stands in another one, or is that one, outside everything that `say` says there. -/
def StandsIn (part whole : Expr) : Prop := Relation.ReflTransGen (fun e inner => inner ∈ e.inside) whole part

theorem mem_children_of_mem_inside {e part : Expr} (member : part ∈ e.inside) : part ∈ e.children := by
  cases e with
  | unary glyph operand =>
    rw [inside] at member
    split at member
    · cases member
    · exact member
  | _ => exact member

theorem StandsIn.refl (e : Expr) : e.StandsIn e := Relation.ReflTransGen.refl

theorem StandsIn.trans {inner middle outer : Expr} (first : inner.StandsIn middle) (second : middle.StandsIn outer) :
    inner.StandsIn outer :=
  Relation.ReflTransGen.trans second first

theorem standsIn_of_mem {part e : Expr} (member : part ∈ e.inside) : part.StandsIn e := .single member

/-- What stands in an expression is the expression, or stands in one that is directly inside. -/
theorem standsIn_iff {part e : Expr} : part.StandsIn e ↔ part = e ∨ ∃ inner ∈ e.inside, part.StandsIn inner := by
  unfold StandsIn
  rw [Relation.ReflTransGen.cases_head_iff, eq_comm]

/-- What a form evaluates in its own environment is directly inside, unless it is a fixed point about to be unrolled. -/
theorem mem_inside_or_unrolled {e part : Expr} (member : part ∈ e.parts) :
    part ∈ e.inside ∨ ∃ functional, e = .fix functional ∧ part = fixedPoint functional := by
  cases e with
  | lambda params body => cases member
  | letRec bindings body => cases member
  | letIn bindings body => exact .inl (List.mem_append_left _ member)
  | fix functional => exact .inr ⟨functional, rfl, List.mem_singleton.mp member⟩
  | _ => exact .inl member

/-- What the combinator is made of. -/
def combinatorParts : List Expr :=
  [combinator, .apply wrapper [wrapper], wrapper, wrapped, .var (lit "f"), .lambda [lit "v"] again, again,
    .apply (.var (lit "x")) [.var (lit "x")], .var (lit "x"), .var (lit "v")]

theorem mem_combinatorParts {part : Expr} (stands : part.StandsIn combinator) : part ∈ combinatorParts := by
  induction stands with
  | refl => exact List.mem_cons_self
  | tail _ member ih =>
    have closed : ∀ e ∈ combinatorParts, ∀ inner ∈ e.inside, inner ∈ combinatorParts := by
      simp [combinatorParts, inside, children, combinator, wrapper, wrapped, again]
    exact closed _ ih _ member

/-- The combinator is made of variables, lambdas and calls only. -/
theorem form_of_standsIn_combinator {part : Expr} (stands : part.StandsIn combinator) :
    (∃ name, part = .var name) ∨ (∃ params body, part = .lambda params body) ∨ ∃ f args, part = .apply f args := by
  have member := mem_combinatorParts stands
  simp only [combinatorParts, combinator, wrapper, wrapped, again, List.mem_cons, List.not_mem_nil, or_false] at member
  rcases member with rfl | rfl | rfl | rfl | rfl | rfl | rfl | rfl | rfl | rfl <;> simp

end CallByValue.Expr
