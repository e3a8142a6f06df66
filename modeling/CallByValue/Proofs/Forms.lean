import CallByValue.Proofs.Frames

/-!
# What each form does

The equations of evaluation, one for each form, and calls as operations of their
own: a closure called with values runs its body over a new frame, and any other
value refuses to be called before its arguments are looked at.
-/

namespace CallByValue

/-- Calls a closure with values. -/
def Closure.call (channel : Channel) (levels : Nat) (c : Closure) (values : List Value) : Eval Value :=
  if values.length = c.arity then do
    let inner ← Eval.extend c.env (c.params.zip values)
    evaluate channel levels c.body inner
  else .ended (.failure (.arityMismatch c.arity values.length))

/-- Calls a value with what some evaluation yields. Only a closure can be called. -/
def Value.call (channel : Channel) (levels : Nat) (arguments : Eval (List Value)) : Value → Eval Value
  | .closure c => do
    let values ← arguments
    c.call channel levels values
  | v => .ended (.failure (.notCallable v))

namespace Eval

variable {α β : Type}

theorem bind_apply (first : Eval α) (rest : α → Eval β) (progress : Progress) :
    (first >>= rest) progress =
      match first progress with
      | (.success a, progress) => rest a progress
      | (.failure e, progress) => (.failure e, progress)
      | (.halted h, progress) => (.halted h, progress) := rfl

theorem bind_of_success {first : Eval α} {progress after : Progress} {a : α}
    (run : first progress = (.success a, after)) (rest : α → Eval β) : (first >>= rest) progress = rest a after := by
  rw [bind_apply, run]

theorem bind_of_failure {first : Eval α} {progress after : Progress} {e : Failure}
    (run : first progress = (.failure e, after)) (rest : α → Eval β) :
    (first >>= rest) progress = (.failure e, after) := by
  rw [bind_apply, run]

theorem bind_of_halted {first : Eval α} {progress after : Progress} {h : Halt}
    (run : first progress = (.halted h, after)) (rest : α → Eval β) :
    (first >>= rest) progress = (.halted h, after) := by
  rw [bind_apply, run]

theorem pure_bind (a : α) (rest : α → Eval β) : (pure a >>= rest) = rest a := rfl

theorem extend_apply (env : Env) (pairs : List (Text × Value)) (progress : Progress) :
    extend env pairs progress =
      (.success (progress.store.next env), progress.push (.ofPairs pairs)) := rfl

/-- The entries of a recursive frame, once the environment that it makes is known. -/
def recursivePairs (lambdas : List (Text × List Text × Expr)) (inner : Env) : List (Text × Value) :=
  lambdas.map fun (name, params, body) => (name, .closure ⟨params, body, inner⟩)

theorem extendRecursive_apply (env : Env) (lambdas : List (Text × List Text × Expr)) (progress : Progress) :
    extendRecursive env lambdas progress =
      (.success (progress.store.next env),
        progress.push (.ofPairs (recursivePairs lambdas (progress.store.next env)))) := rfl

theorem operate_apply (op : BinaryOperator) (levels : Nat) (a b : Value) (progress : Progress) :
    operate op levels a b progress = (op.apply progress.store.nextMark levels a b, progress.tick) := rfl

theorem say_apply (channel : Channel) (levels : Nat) (e : Expr) (progress : Progress) :
    say channel levels e progress =
      match channel.obstacle? levels e with
      | some halt => (.halted halt, progress)
      | none => (.success (.quoted e), progress.tell e) := rfl

theorem lookup_apply (name : Text) (env : Env) (progress : Progress) :
    lookup name env progress =
      match progress.store.lookup name env with
      | some value => (.success value, progress)
      | none => (.failure (.unbound name), progress) := rfl

end Eval

section
variable (channel : Channel) (levels : Nat) (env : Env)

theorem evaluate_zero (e : Expr) : evaluate channel 0 e env = .ended (.halted .stackExhausted) := rfl

theorem evaluate_literal (a : Atom) : evaluate channel (levels + 1) (.literal a) env = pure (.atom a) := rfl

theorem evaluate_var (name : Text) : evaluate channel (levels + 1) (.var name) env = .lookup name env := rfl

theorem evaluate_var_of_lookup {name : Text} {value : Value} {progress : Progress}
    (found : progress.store.lookup name env = some value) :
    evaluate channel (levels + 1) (.var name) env progress = (.success value, progress) := by
  rw [evaluate_var, Eval.lookup_apply, found]

theorem evaluate_binary (glyph : Text) (left right : Expr) :
    evaluate channel (levels + 1) (.binary glyph left right) env =
      match BinaryOperator.ofGlyph? glyph with
      | none => .ended (.failure (.unknownOperator glyph))
      | some op => (do
        let a ← evaluate channel levels left env
        let b ← evaluate channel levels right env
        Eval.operate op levels a b) := rfl

theorem evaluate_unary (glyph : Text) (operand : Expr) :
    evaluate channel (levels + 1) (.unary glyph operand) env =
      match UnaryOperator.ofGlyph? glyph with
      | none => .ended (.failure (.unknownOperator glyph))
      | some .say => .say channel levels operand
      | some .not => (do
        let v ← evaluate channel levels operand env
        return v.negated)
      | some .isZero => (do
        let v ← evaluate channel levels operand env
        return v.zeroTest) := rfl

theorem evaluate_conditional (test yes no : Expr) :
    evaluate channel (levels + 1) (.conditional test yes no) env = (do
      let v ← evaluate channel levels test env
      if v.isTrue then evaluate channel levels yes env else evaluate channel levels no env) := rfl

theorem evaluate_lambda (params : List Text) (body : Expr) :
    evaluate channel (levels + 1) (.lambda params body) env = pure (.closure ⟨params, body, env⟩) := rfl

theorem evaluate_apply (callee : Expr) (args : List Expr) :
    evaluate channel (levels + 1) (.apply callee args) env = (do
      let v ← evaluate channel levels callee env
      v.call channel levels (evaluateEach channel levels args env)) := rfl

theorem evaluate_letIn (bindings : List (Text × Expr)) (body : Expr) :
    evaluate channel (levels + 1) (.letIn bindings body) env = (do
      let values ← evaluateEach channel levels (bindings.map (·.2)) env
      let inner ← Eval.extend env ((bindings.map (·.1)).zip values)
      evaluate channel levels body inner) := rfl

theorem evaluate_letRec (bindings : List (Text × Expr)) (body : Expr) :
    evaluate channel (levels + 1) (.letRec bindings body) env =
      match lambdasOf bindings with
      | .error name => .ended (.failure (.notAFunction name))
      | .ok lambdas => (do
        let inner ← Eval.extendRecursive env lambdas
        evaluate channel levels body inner) := rfl

theorem evaluate_sequence (first : Expr) (rest : List Expr) :
    evaluate channel (levels + 1) (.sequence first rest) env =
      .last (fun e => evaluate channel levels e env) first rest := rfl

theorem evaluate_fix (functional : Expr) :
    evaluate channel (levels + 1) (.fix functional) env = evaluate channel levels (.fixedPoint functional) env := rfl

theorem evaluateEach_single {e : Expr} {v : Value} {before after : Progress}
    (run : evaluate channel levels e env before = (.success v, after)) :
    evaluateEach channel levels [e] env before = (.success [v], after) := by
  unfold evaluateEach Eval.each
  rw [Eval.bind_of_success run]
  rfl

end

/-- A closure that is given as many values as it takes runs its body over a frame of them. -/
theorem Closure.call_of_arity (channel : Channel) (levels : Nat) {c : Closure} {values : List Value}
    (arity : values.length = c.arity) (before : Progress) :
    c.call channel levels values before =
      evaluate channel levels c.body (before.store.next c.env) (before.push (.ofPairs (c.params.zip values))) := by
  unfold Closure.call
  rw [if_pos arity]
  rfl

/-! ## The lambdas of recursive bindings -/

def Expr.isLambda : Expr → Bool
  | .lambda _ _ => true
  | _ => false

def lambdaBindings (lambdas : List (Text × List Text × Expr)) : List (Text × Expr) :=
  lambdas.map fun (name, params, body) => (name, .lambda params body)

theorem names_lambdaBindings (lambdas : List (Text × List Text × Expr)) :
    (lambdaBindings lambdas).map (·.1) = lambdas.map (·.1) := by
  simp [lambdaBindings, Function.comp_def]

theorem lambda_mem_lambdaBindings {lambdas : List (Text × List Text × Expr)} {name : Text} {params : List Text}
    {body : Expr} (member : (name, params, body) ∈ lambdas) :
    Expr.lambda params body ∈ (lambdaBindings lambdas).map (·.2) :=
  List.mem_map.mpr ⟨_, List.mem_map.mpr ⟨_, member, rfl⟩, rfl⟩

theorem lambdasOf_cons_lambda (name : Text) (params : List Text) (body : Expr) (rest : List (Text × Expr)) :
    lambdasOf ((name, .lambda params body) :: rest) =
      (lambdasOf rest).map fun lambdas => (name, params, body) :: lambdas := by
  rw [lambdasOf]
  cases lambdasOf rest <;> rfl

theorem lambdasOf_cons_other {name : Text} {e : Expr} {rest : List (Text × Expr)} (other : e.isLambda = false) :
    lambdasOf ((name, e) :: rest) = .error name := by
  cases e with
  | lambda params body => cases other
  | _ => rfl

/-- Recursive bindings are accepted exactly when they bind lambdas. -/
theorem lambdasOf_eq_ok_iff {bindings : List (Text × Expr)} {lambdas : List (Text × List Text × Expr)} :
    lambdasOf bindings = .ok lambdas ↔ bindings = lambdaBindings lambdas := by
  constructor
  · intro accepted
    induction bindings generalizing lambdas with
    | nil => cases accepted; rfl
    | cons binding rest ih =>
      obtain ⟨name, e⟩ := binding
      cases h : e.isLambda with
      | false => rw [lambdasOf_cons_other h] at accepted; cases accepted
      | true =>
        cases e with
        | lambda params body =>
          rw [lambdasOf_cons_lambda] at accepted
          cases later : lambdasOf rest with
          | error name => rw [later] at accepted; cases accepted
          | ok tail =>
            rw [later] at accepted
            cases accepted
            rw [ih later]
            rfl
        | _ => cases h
  · rintro rfl
    induction lambdas with
    | nil => rfl
    | cons entry rest ih =>
      obtain ⟨name, params, body⟩ := entry
      change lambdasOf ((name, .lambda params body) :: lambdaBindings rest) = _
      rw [lambdasOf_cons_lambda, ih]
      rfl

/-- The body of a recursive binding of lambdas runs over the frame that they make. -/
theorem evaluate_letRec_of_lambdas (channel : Channel) (levels : Nat) (lambdas : List (Text × List Text × Expr))
    (body : Expr) (env : Env) (before : Progress) :
    evaluate channel (levels + 1) (.letRec (lambdaBindings lambdas) body) env before =
      evaluate channel levels body (before.store.next env)
        (before.push (.ofPairs (Eval.recursivePairs lambdas (before.store.next env)))) := by
  rw [evaluate_letRec, lambdasOf_eq_ok_iff.mpr rfl]
  rfl

/-- Recursive bindings are refused for the first name that is bound to something else than a lambda. -/
theorem lambdasOf_eq_error_iff {bindings : List (Text × Expr)} {name : Text} :
    lambdasOf bindings = .error name ↔
      ∃ lambdas e rest, bindings = lambdaBindings lambdas ++ (name, e) :: rest ∧ e.isLambda = false := by
  constructor
  · intro refused
    induction bindings with
    | nil => cases refused
    | cons binding rest ih =>
      obtain ⟨other, e⟩ := binding
      cases h : e.isLambda with
      | false =>
        rw [lambdasOf_cons_other h] at refused
        cases refused
        exact ⟨[], e, rest, rfl, h⟩
      | true =>
        cases e with
        | lambda params body =>
          rw [lambdasOf_cons_lambda] at refused
          cases later : lambdasOf rest with
          | error found =>
            rw [later] at refused
            cases refused
            obtain ⟨lambdas, e, others, rfl, notLambda⟩ := ih later
            exact ⟨(other, params, body) :: lambdas, e, others, rfl, notLambda⟩
          | ok tail => rw [later] at refused; cases refused
        | _ => cases h
  · rintro ⟨lambdas, e, rest, rfl, other⟩
    induction lambdas with
    | nil => exact lambdasOf_cons_other other
    | cons entry lambdas ih =>
      obtain ⟨name', params, body⟩ := entry
      change lambdasOf ((name', .lambda params body) :: (lambdaBindings lambdas ++ _)) = _
      rw [lambdasOf_cons_lambda, ih]
      rfl

/-- The name that is refused is bound to something else than a lambda. -/
theorem exists_of_lambdasOf_eq_error {bindings : List (Text × Expr)} {name : Text}
    (refused : lambdasOf bindings = .error name) : ∃ e, (name, e) ∈ bindings ∧ e.isLambda = false := by
  obtain ⟨lambdas, e, rest, rfl, other⟩ := lambdasOf_eq_error_iff.mp refused
  exact ⟨e, by simp, other⟩

end CallByValue
