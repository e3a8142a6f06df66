import CallByValue.Proofs.Forms

/-!
# Big-step semantics

What an expression comes to, by rules and without a budget: from a store and an
environment to an outcome, what was said on the way and the store left behind.
One rule for each way in which a form can end, every failing part included.
-/

namespace CallByValue

/-- The value of a name in the innermost frame that binds it. -/
def Store.Innermost (store : Store) (env : Env) (name : Text) (value : Value) : Prop :=
  ∃ inner frame outer, env = inner ++ frame :: outer ∧ (∀ f ∈ inner, (store.bindings f).find? name = none) ∧
    (store.bindings frame).find? name = some value

/-- No frame of an environment binds a name. -/
def Store.Lacks (store : Store) (env : Env) (name : Text) : Prop :=
  ∀ frame ∈ env, (store.bindings frame).find? name = none

/-- The store with one mark used up. -/
def Store.tick (store : Store) : Store := { store with nextMark := store.nextMark + 1 }

/-- What an operator makes of two operands. A NaN that it computes gets the mark. -/
inductive BinaryOperator.Yields (mark : Nat) : BinaryOperator → Value → Value → Outcome Value → Prop where
  | equal {a b} : Yields mark .equal a b (.success (.truth (a.sameValue b)))
  | leftOperand {op f a b} (arithmetic : op.arithmetic? mark = some f) (other : a.number? = none) :
      Yields mark op a b (.failure (.notANumber op.glyph a))
  | rightOperand {op f a b x} (arithmetic : op.arithmetic? mark = some f) (left : a.number? = some x)
      (other : b.number? = none) : Yields mark op a b (.failure (.notANumber op.glyph b))
  | number {op f a b x y n} (arithmetic : op.arithmetic? mark = some f) (left : a.number? = some x)
      (right : b.number? = some y) (result : f x y = .ok n) : Yields mark op a b (.success (.atom (.number n)))
  | divisionByZero {op f a b x y} (arithmetic : op.arithmetic? mark = some f) (left : a.number? = some x)
      (right : b.number? = some y) (fault : f x y = .error .divisionByZero) :
      Yields mark op a b (.failure .divisionByZero)
  | overflow {op f a b x y} (arithmetic : op.arithmetic? mark = some f) (left : a.number? = some x)
      (right : b.number? = some y) (fault : f x y = .error .overflow) :
      Yields mark op a b (.failure (.overflow op.glyph))

mutual

/-- `Derives store env e outcome said after`: over the store, in the environment, the expression comes to the
    outcome, having said the expressions of the list in order, and leaves the store `after`. -/
inductive Derives : Store → Env → Expr → Outcome Value → List Expr → Store → Prop where
  | literal {store env a} : Derives store env (.literal a) (.success (.atom a)) [] store
  | var {store env name v} (bound : store.Innermost env name v) :
      Derives store env (.var name) (.success v) [] store
  | unbound {store env name} (lacks : store.Lacks env name) :
      Derives store env (.var name) (.failure (.unbound name)) [] store
  -- Operators: an unknown glyph is refused before any operand is looked at.
  | unknownBinary {store env glyph left right} (unknown : ∀ op : BinaryOperator, op.glyph ≠ glyph) :
      Derives store env (.binary glyph left right) (.failure (.unknownOperator glyph)) [] store
  | binary {store env op left right a b outcome said more mid after}
      (first : Derives store env left (.success a) said mid) (second : Derives mid env right (.success b) more after)
      (result : BinaryOperator.Yields after.nextMark op a b outcome) :
      Derives store env (.binary op.glyph left right) outcome (said ++ more) after.tick
  | binaryLeft {store env op left right e said after} (first : Derives store env left (.failure e) said after) :
      Derives store env (.binary (BinaryOperator.glyph op) left right) (.failure e) said after
  | binaryRight {store env op left right a e said more mid after}
      (first : Derives store env left (.success a) said mid)
      (second : Derives mid env right (.failure e) more after) :
      Derives store env (.binary (BinaryOperator.glyph op) left right) (.failure e) (said ++ more) after
  | unknownUnary {store env glyph operand} (unknown : ∀ op : UnaryOperator, op.glyph ≠ glyph) :
      Derives store env (.unary glyph operand) (.failure (.unknownOperator glyph)) [] store
  | say {store env operand} :
      Derives store env (.unary UnaryOperator.say.glyph operand) (.success (.quoted operand)) [operand] store
  | not {store env operand v said after} (part : Derives store env operand (.success v) said after) :
      Derives store env (.unary UnaryOperator.not.glyph operand) (.success v.negated) said after
  | isZero {store env operand v said after} (part : Derives store env operand (.success v) said after) :
      Derives store env (.unary UnaryOperator.isZero.glyph operand) (.success v.zeroTest) said after
  | unaryOperand {store env op operand e said after} (evaluated : op ≠ UnaryOperator.say)
      (part : Derives store env operand (.failure e) said after) :
      Derives store env (.unary op.glyph operand) (.failure e) said after
  -- Conditionals: exactly true takes the first branch, everything else the second.
  | yes {store env test yes no outcome said more mid after}
      (first : Derives store env test (.success (.truth true)) said mid)
      (second : Derives mid env yes outcome more after) :
      Derives store env (.conditional test yes no) outcome (said ++ more) after
  | no {store env test yes no v outcome said more mid after} (first : Derives store env test (.success v) said mid)
      (other : v ≠ .truth true) (second : Derives mid env no outcome more after) :
      Derives store env (.conditional test yes no) outcome (said ++ more) after
  | test {store env test yes no e said after} (first : Derives store env test (.failure e) said after) :
      Derives store env (.conditional test yes no) (.failure e) said after
  | lambda {store env params body} :
      Derives store env (.lambda params body) (.success (.closure ⟨params, body, env⟩)) [] store
  -- Calls: the callee, whether it can be called, the arguments, their number, and then the body.
  | callee {store env callee args e said after} (first : Derives store env callee (.failure e) said after) :
      Derives store env (.apply callee args) (.failure e) said after
  | notCallable {store env callee args v said after} (first : Derives store env callee (.success v) said after)
      (other : ∀ c, v ≠ .closure c) : Derives store env (.apply callee args) (.failure (.notCallable v)) said after
  | argument {store env callee args c e said more mid after}
      (first : Derives store env callee (.success (.closure c)) said mid)
      (second : DerivesEach mid env args (.failure e) more after) :
      Derives store env (.apply callee args) (.failure e) (said ++ more) after
  | arityMismatch {store env callee args c values said more mid after}
      (first : Derives store env callee (.success (.closure c)) said mid)
      (second : DerivesEach mid env args (.success values) more after) (differs : values.length ≠ c.params.length) :
      Derives store env (.apply callee args) (.failure (.arityMismatch c.params.length values.length)) (said ++ more)
        after
  | call {store env callee args c values outcome said more rest mid before after}
      (first : Derives store env callee (.success (.closure c)) said mid)
      (second : DerivesEach mid env args (.success values) more before) (arity : values.length = c.params.length)
      (third : Derives (before.push (.ofPairs (c.params.zip values))) (before.next c.env) c.body outcome rest after) :
      Derives store env (.apply callee args) outcome (said ++ (more ++ rest)) after
  | letIn {store env bindings body values outcome said more mid after}
      (first : DerivesEach store env (bindings.map (·.2)) (.success values) said mid)
      (second : Derives (mid.push (.ofPairs ((bindings.map (·.1)).zip values))) (mid.next env) body outcome more
        after) : Derives store env (.letIn bindings body) outcome (said ++ more) after
  | bound {store env bindings body e said after}
      (first : DerivesEach store env (bindings.map (·.2)) (.failure e) said after) :
      Derives store env (.letIn bindings body) (.failure e) said after
  -- Recursive bindings: nothing runs unless all of them bind lambdas.
  | notAFunction {store env lambdas name e rest body} (other : e.isLambda = false) :
      Derives store env (.letRec (lambdaBindings lambdas ++ (name, e) :: rest) body)
        (.failure (.notAFunction name)) [] store
  | letRec {store env lambdas body outcome said after}
      (first : Derives (store.push (.ofPairs (Eval.recursivePairs lambdas (store.next env)))) (store.next env) body
        outcome said after) : Derives store env (.letRec (lambdaBindings lambdas) body) outcome said after
  | last {store env e outcome said after} (only : Derives store env e outcome said after) :
      Derives store env (.sequence e []) outcome said after
  | next {store env e v next rest outcome said more mid after} (first : Derives store env e (.success v) said mid)
      (second : Derives mid env (.sequence next rest) outcome more after) :
      Derives store env (.sequence e (next :: rest)) outcome (said ++ more) after
  | stop {store env e x next rest said after} (first : Derives store env e (.failure x) said after) :
      Derives store env (.sequence e (next :: rest)) (.failure x) said after
  | fix {store env functional outcome said after}
      (rewritten : Derives store env (.fixedPoint functional) outcome said after) :
      Derives store env (.fix functional) outcome said after

/-- The same for a list of expressions, from left to right up to the first that fails. -/
inductive DerivesEach : Store → Env → List Expr → Outcome (List Value) → List Expr → Store → Prop where
  | nil {store env} : DerivesEach store env [] (.success []) [] store
  | cons {store env e es v vs said more mid after} (first : Derives store env e (.success v) said mid)
      (others : DerivesEach mid env es (.success vs) more after) :
      DerivesEach store env (e :: es) (.success (v :: vs)) (said ++ more) after
  | head {store env e es x said after} (first : Derives store env e (.failure x) said after) :
      DerivesEach store env (e :: es) (.failure x) said after
  | tail {store env e es v x said more mid after} (first : Derives store env e (.success v) said mid)
      (others : DerivesEach mid env es (.failure x) more after) :
      DerivesEach store env (e :: es) (.failure x) (said ++ more) after

end

end CallByValue
