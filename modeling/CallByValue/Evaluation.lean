import CallByValue.Operators
import CallByValue.Store

/-!
# Evaluation

Call by value, with so many levels of nested visits granted. Every form stops at
the first part that does not succeed and ends as that part did. What `say` says
is collected in order; the channel it goes to can only stop the evaluation, by
refusing what it cannot write.
-/

namespace CallByValue

/-- Where `say` sends expressions. -/
inductive Channel where
  | silence
  | recorder
  | console
deriving DecidableEq

namespace Channel

/-- What stops a channel from taking an expression within so many levels, if anything does. Only the
    console writes what it is given. -/
def obstacle? (channel : Channel) (levels : Nat) (e : Expr) : Option Halt :=
  match channel with
  | .console => e.obstacle? levels
  | _ => none

/-- What the console has written after some expressions: a line for each. -/
def stream (said : List Expr) : Text := said.flatMap fun e => e.text ++ lit "\n"

end Channel

/-- How far an evaluation has come: the frames it made and what it said. -/
structure Progress where
  store : Store
  said : Array Expr

/-- The beginning of an evaluation over a store. -/
def Progress.start (store : Store) : Progress := ⟨store, #[]⟩

/-- An evaluation: from some progress to an outcome and further progress. -/
def Eval (α : Type) : Type := Progress → Outcome α × Progress

namespace Eval

/-- Succeeds at once. -/
@[inline] protected def pure {α : Type} (a : α) : Eval α := fun progress => (.success a, progress)

/-- Goes on with the value of the first part; ends as that part did where it has none. -/
@[inline] protected def bind {α β : Type} (first : Eval α) (rest : α → Eval β) : Eval β := fun progress =>
  match first progress with
  | (.success a, progress) => rest a progress
  | (.failure e, progress) => (.failure e, progress)
  | (.halted h, progress) => (.halted h, progress)

instance : Monad Eval where
  pure := Eval.pure
  bind := Eval.bind

/-- Ends at once. -/
@[inline] def ended {α : Type} (outcome : Outcome α) : Eval α := fun progress => (outcome, progress)

/-- The value of a variable. -/
def lookup (name : Text) (env : Env) : Eval Value := fun progress =>
  match progress.store.lookup name env with
  | some value => (.success value, progress)
  | none => (.failure (.unbound name), progress)

/-- Applies an operator; it uses up a mark. -/
def operate (op : BinaryOperator) (levels : Nat) (a b : Value) : Eval Value := fun progress =>
  (op.apply progress.store.nextMark levels a b,
    { progress with store := { progress.store with nextMark := progress.store.nextMark + 1 } })

/-- Says an expression, which is also the value. -/
def say (channel : Channel) (levels : Nat) (e : Expr) : Eval Value := fun progress =>
  match channel.obstacle? levels e with
  | some halt => (.halted halt, progress)
  | none => (.success (.quoted e), { progress with said := progress.said.push e })

/-- Makes a frame. -/
def extend (env : Env) (pairs : List (Text × Value)) : Eval Env := fun progress =>
  let (store, inner) := progress.store.extend env pairs
  (.success inner, { progress with store })

/-- Makes a frame of closures that capture it. -/
def extendRecursive (env : Env) (lambdas : List (Text × List Text × Expr)) : Eval Env := fun progress =>
  let (store, inner) := progress.store.extendRecursive env lambdas
  (.success inner, { progress with store })

/-- The values of expressions from left to right. -/
def each (evaluate : Expr → Eval Value) : List Expr → Eval (List Value)
  | [] => pure []
  | e :: es => do
    let value ← evaluate e
    let values ← each evaluate es
    return value :: values

/-- The value of the last of some expressions, taken from left to right. -/
def last (evaluate : Expr → Eval Value) (first : Expr) : List Expr → Eval Value
  | [] => evaluate first
  | e :: es => do
    let _ ← evaluate first
    last evaluate e es

end Eval

/-- The lambdas of recursive bindings, or the name of the first that is bound to something else. -/
def lambdasOf : List (Text × Expr) → Except Text (List (Text × List Text × Expr))
  | [] => .ok []
  | (name, .lambda params body) :: rest => do
    let lambdas ← lambdasOf rest
    return (name, params, body) :: lambdas
  | (name, _) :: _ => .error name

/-- Evaluates an expression in an environment. -/
def evaluate (channel : Channel) : Nat → Expr → Env → Eval Value
  | 0, _, _ => .ended (.halted .stackExhausted)
  | levels + 1, e, env =>
    match e with
    | .literal a => pure (.atom a)
    | .var name => .lookup name env
    | .binary glyph left right =>
      match BinaryOperator.ofGlyph? glyph with
      | none => .ended (.failure (.unknownOperator glyph))
      | some op => do
        let a ← evaluate channel levels left env
        let b ← evaluate channel levels right env
        Eval.operate op levels a b
    | .unary glyph operand =>
      match UnaryOperator.ofGlyph? glyph with
      | none => .ended (.failure (.unknownOperator glyph))
      | some .say => Eval.say channel levels operand
      | some .not => do
        let v ← evaluate channel levels operand env
        return v.negated
      | some .isZero => do
        let v ← evaluate channel levels operand env
        return v.zeroTest
    | .conditional test yes no => do
      let v ← evaluate channel levels test env
      if v.isTrue then evaluate channel levels yes env else evaluate channel levels no env
    | .lambda params body => pure (.closure ⟨params, body, env⟩)
    | .apply callee args => do
      let v ← evaluate channel levels callee env
      match v with
      | .closure c => do
        let values ← Eval.each (fun arg => evaluate channel levels arg env) args
        if values.length = c.arity then do
          let inner ← Eval.extend c.env (c.params.zip values)
          evaluate channel levels c.body inner
        else .ended (.failure (.arityMismatch c.arity values.length))
      | v => .ended (.failure (.notCallable v))
    | .letIn bindings body => do
      let values ← Eval.each (fun bound => evaluate channel levels bound env) (bindings.map (·.2))
      let inner ← Eval.extend env ((bindings.map (·.1)).zip values)
      evaluate channel levels body inner
    | .letRec bindings body =>
      match lambdasOf bindings with
      | .error name => .ended (.failure (.notAFunction name))
      | .ok lambdas => do
        let inner ← Eval.extendRecursive env lambdas
        evaluate channel levels body inner
    | .sequence first rest => Eval.last (fun e => evaluate channel levels e env) first rest
    | .fix functional => evaluate channel levels (Expr.fixedPoint functional) env

/-- Evaluates expressions in an environment, from left to right. -/
def evaluateEach (channel : Channel) (levels : Nat) (es : List Expr) (env : Env) : Eval (List Value) :=
  Eval.each (fun e => evaluate channel levels e env) es

end CallByValue
