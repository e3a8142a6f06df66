import CallByValue.Proofs.Forms
import Mathlib.Logic.Relation

/-!
# Visits

Evaluation as a tree of visits. A visit goes to an expression in an environment,
with so many levels left and some progress made; the visits that it makes in turn
are its parts. Every state that a run goes through is the progress before or after
one of them.
-/

namespace CallByValue

/-- A visit to an expression. -/
structure Visit where
  levels : Nat
  expr : Expr
  env : Env
  before : Progress

/-- Which form makes a frame. -/
inductive Maker where
  | call
  | binding
  | recursion
deriving DecidableEq

/-- A frame about to be made over an environment, for the body of a form that stands in that environment. -/
structure Opening where
  maker : Maker
  outer : Env
  form : Expr
  body : Expr
  table : Table Value
  before : Progress

namespace Opening

/-- The number of the frame. -/
def frame (o : Opening) : Nat := o.before.store.frames.size

/-- The environment that the frame is the innermost of. -/
def inner (o : Opening) : Env := o.before.store.next o.outer

/-- The visit to the body in the new frame. -/
def visit (o : Opening) (levels : Nat) : Visit := ⟨levels, o.body, o.inner, o.before.push o.table⟩

theorem inner_eq (o : Opening) : o.inner = o.frame :: o.outer := rfl

end Opening

namespace Visit

section
variable (channel : Channel)

/-- What a visit comes to. -/
def run (v : Visit) : Outcome Value × Progress := evaluate channel v.levels v.expr v.env v.before

/-- Expressions are visited in one environment from left to right, each once those before it have a value. -/
inductive InOrder (levels : Nat) (env : Env) : List Expr → Progress → Visit → Prop where
  | here {e es now} : InOrder levels env (e :: es) now ⟨levels, e, env, now⟩
  | later {e es now v after w} (first : evaluate channel levels e env now = (.success v, after))
      (others : InOrder levels env es after w) : InOrder levels env (e :: es) now w

/-- The frame that a visit makes itself, once it has come so far. -/
inductive Opens : Visit → Opening → Prop where
  | call {levels callee args env before c mid values now}
      (called : evaluate channel levels callee env before = (.success (.closure c), mid))
      (given : evaluateEach channel levels args env mid = (.success values, now)) (arity : values.length = c.arity) :
      Opens ⟨levels + 1, .apply callee args, env, before⟩
        ⟨.call, c.env, .lambda c.params c.body, c.body, .ofPairs (c.params.zip values), now⟩
  | letIn {levels bindings body env before values now}
      (bound : evaluateEach channel levels (bindings.map (·.2)) env before = (.success values, now)) :
      Opens ⟨levels + 1, .letIn bindings body, env, before⟩
        ⟨.binding, env, .letIn bindings body, body, .ofPairs ((bindings.map (·.1)).zip values), now⟩
  | letRec {levels lambdas body env before} :
      Opens ⟨levels + 1, .letRec (lambdaBindings lambdas) body, env, before⟩
        ⟨.recursion, env, .letRec (lambdaBindings lambdas) body, body,
          .ofPairs (Eval.recursivePairs lambdas (before.store.next env)), before⟩

/-- The visits that a visit makes. -/
inductive Part : Visit → Visit → Prop where
  | binary {levels glyph op left right env before w} (known : BinaryOperator.ofGlyph? glyph = some op)
      (operand : InOrder channel levels env [left, right] before w) :
      Part ⟨levels + 1, .binary glyph left right, env, before⟩ w
  | unary {levels glyph op operand env before} (known : UnaryOperator.ofGlyph? glyph = some op) (other : op ≠ .say) :
      Part ⟨levels + 1, .unary glyph operand, env, before⟩ ⟨levels, operand, env, before⟩
  | test {levels test yes no env before} :
      Part ⟨levels + 1, .conditional test yes no, env, before⟩ ⟨levels, test, env, before⟩
  | branch {levels test yes no env before v mid}
      (tested : evaluate channel levels test env before = (.success v, mid)) :
      Part ⟨levels + 1, .conditional test yes no, env, before⟩ ⟨levels, if v.isTrue then yes else no, env, mid⟩
  | callee {levels callee args env before} :
      Part ⟨levels + 1, .apply callee args, env, before⟩ ⟨levels, callee, env, before⟩
  | argument {levels callee args env before c mid w}
      (called : evaluate channel levels callee env before = (.success (.closure c), mid))
      (argument : InOrder channel levels env args mid w) : Part ⟨levels + 1, .apply callee args, env, before⟩ w
  | bound {levels bindings body env before w} (bound : InOrder channel levels env (bindings.map (·.2)) before w) :
      Part ⟨levels + 1, .letIn bindings body, env, before⟩ w
  | item {levels first rest env before w} (item : InOrder channel levels env (first :: rest) before w) :
      Part ⟨levels + 1, .sequence first rest, env, before⟩ w
  | fix {levels functional env before} :
      Part ⟨levels + 1, .fix functional, env, before⟩ ⟨levels, .fixedPoint functional, env, before⟩
  | body {levels e env before o} (opens : Opens channel ⟨levels + 1, e, env, before⟩ o) :
      Part ⟨levels + 1, e, env, before⟩ (o.visit levels)

/-- A visit leads to its parts, to theirs and so on. -/
def LeadsTo : Visit → Visit → Prop := Relation.ReflTransGen (Part channel)

end

variable {channel : Channel} {levels : Nat} {env : Env}

/-! ## Runs in terms of their parts -/

theorem run_binary {glyph : Text} {op : BinaryOperator} (known : BinaryOperator.ofGlyph? glyph = some op)
    (left right : Expr) (before : Progress) :
    run channel ⟨levels + 1, .binary glyph left right, env, before⟩ = (do
      let a ← evaluate channel levels left env
      let b ← evaluate channel levels right env
      Eval.operate op levels a b) before := by
  change evaluate channel (levels + 1) _ env before = _
  rw [evaluate_binary, known]

/-- A visit that makes a frame ends as the visit to the body does. -/
theorem Opens.run_eq {e : Expr} {before : Progress} {o : Opening}
    (opens : Opens channel ⟨levels + 1, e, env, before⟩ o) :
    run channel ⟨levels + 1, e, env, before⟩ = (o.visit levels).run channel := by
  cases opens with
  | @call _ callee args _ _ c mid values now called given arity =>
    change evaluate channel (levels + 1) _ env before = _
    rw [evaluate_apply, Eval.bind_of_success called]
    change (evaluateEach channel levels args env >>= fun values => c.call channel levels values) mid = _
    rw [Eval.bind_of_success given]
    exact c.call_of_arity channel levels arity now
  | letIn bound =>
    change evaluate channel (levels + 1) _ env before = _
    rw [evaluate_letIn, Eval.bind_of_success bound]
    rfl
  | @letRec _ lambdas body =>
    exact evaluate_letRec_of_lambdas channel levels lambdas body env before

/-- A part is visited with one level less. -/
theorem Part.levels_eq {v w : Visit} (part : Part channel v w) : v.levels = w.levels + 1 := by
  have inOrder : ∀ {levels env es now w}, InOrder channel levels env es now w → w.levels = levels := by
    intro _ _ _ _ _ visited
    induction visited with
    | here => rfl
    | later _ _ ih => exact ih
  cases part with
  | binary _ operand => rw [inOrder operand]
  | argument _ argument => rw [inOrder argument]
  | bound bound => rw [inOrder bound]
  | item item => rw [inOrder item]
  | _ => rfl

end Visit

end CallByValue
