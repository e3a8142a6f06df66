import CallByValue.Proofs.Guarantees

/-!
# Disciplines

An invariant of evaluation, with what it asks of the expressions that are
evaluated and what it tells about the values that come out. Each form has its own
condition, about one step; that evaluation keeps the discipline follows from them.
-/

namespace CallByValue

/-- The expressions that a form evaluates in its own environment. -/
def Expr.parts : Expr → List Expr
  | .literal _ => []
  | .var _ => []
  | .binary _ a b => [a, b]
  | .unary g a => if g = UnaryOperator.say.glyph then [] else [a]
  | .conditional a b c => [a, b, c]
  | .lambda _ _ => []
  | .apply f as => f :: as
  | .letIn bs _ => bs.map (·.2)
  | .letRec _ _ => []
  | .sequence a as => a :: as
  | .fix a => [fixedPoint a]

/-- What evaluation is to keep: an invariant of the progress, the expressions that an environment admits, the
    values that are good and the failures that are permitted. -/
structure Discipline where
  inv : Progress → Prop
  permitted : Failure → Prop
  admits : Progress → Env → Expr → Prop
  good : Progress → Value → Prop
  admits_later : ∀ {now after env e}, now.LeadsTo after → admits now env e → admits after env e
  good_later : Eval.Lasting good
  parts : ∀ {now env e}, admits now env e → ∀ part ∈ e.parts, admits now env part
  literal : ∀ {now env a}, admits now env (.literal a) → good now (.atom a)
  truth : ∀ {now} b, good now (.truth b)
  found : ∀ {now env name v}, inv now → admits now env (.var name) → now.store.lookup name env = some v → good now v
  unbound : ∀ {now env name}, admits now env (.var name) → now.store.lookup name env = none →
    permitted (.unbound name)
  unknownBinary : ∀ {now env glyph left right}, admits now env (.binary glyph left right) →
    BinaryOperator.ofGlyph? glyph = none → permitted (.unknownOperator glyph)
  unknownUnary : ∀ {now env glyph operand}, admits now env (.unary glyph operand) →
    UnaryOperator.ofGlyph? glyph = none → permitted (.unknownOperator glyph)
  operate : ∀ {now env glyph left right op a b} levels, inv now → admits now env (.binary glyph left right) →
    BinaryOperator.ofGlyph? glyph = some op → good now a → good now b →
      inv now.tick ∧ (op.apply now.store.nextMark levels a b).Satisfies (good now.tick) permitted
  say : ∀ {now env glyph operand}, inv now → admits now env (.unary glyph operand) →
    UnaryOperator.ofGlyph? glyph = some .say → inv (now.tell operand) ∧ good (now.tell operand) (.quoted operand)
  lambda : ∀ {now env params body}, admits now env (.lambda params body) → good now (.closure ⟨params, body, env⟩)
  notCallable : ∀ {now v}, good now v → permitted (.notCallable v)
  arityMismatch : ∀ expected given, permitted (.arityMismatch expected given)
  call : ∀ {now c values}, inv now → good now (.closure c) → values.length = c.arity → (∀ v ∈ values, good now v) →
    inv (now.push (.ofPairs (c.params.zip values))) ∧
      admits (now.push (.ofPairs (c.params.zip values))) (now.store.next c.env) c.body
  letIn : ∀ {now env bindings body values}, inv now → admits now env (.letIn bindings body) →
    values.length = bindings.length → (∀ v ∈ values, good now v) →
      inv (now.push (.ofPairs ((bindings.map (·.1)).zip values))) ∧
        admits (now.push (.ofPairs ((bindings.map (·.1)).zip values))) (now.store.next env) body
  notAFunction : ∀ {now env bindings body name}, admits now env (.letRec bindings body) →
    lambdasOf bindings = .error name → permitted (.notAFunction name)
  letRec : ∀ {now env lambdas body}, inv now → admits now env (.letRec (lambdaBindings lambdas) body) →
    inv (now.push (.ofPairs (Eval.recursivePairs lambdas (now.store.next env)))) ∧
      admits (now.push (.ofPairs (Eval.recursivePairs lambdas (now.store.next env)))) (now.store.next env) body

namespace Discipline

variable (discipline : Discipline) {channel : Channel} {levels : Nat} {since : Progress} {env : Env}

/-- Evaluation makes progress, keeps the invariant, and ends in a good value or a permitted failure. -/
def Keeps {α : Type} (since : Progress) (m : Eval α) (good : Progress → α → Prop) : Prop :=
  Eval.Ensures discipline.inv discipline.permitted since m good

def Opens (body : Expr) (after : Progress) (inner : Env) : Prop := discipline.admits after inner body

theorem keeps_call {c : Closure} {values : List Value}
    (body : ∀ {now inner}, discipline.admits now inner c.body →
      discipline.Keeps now (evaluate channel levels c.body inner) discipline.good)
    (good : discipline.good since (.closure c)) (given : ∀ v ∈ values, discipline.good since v) :
    discipline.Keeps since (c.call channel levels values) discipline.good := by
  unfold Closure.call
  split
  · next arity =>
    have opens : discipline.Keeps since (Eval.extend c.env (c.params.zip values)) (discipline.Opens c.body) := by
      refine .extend fun before lead kept => ?_
      exact discipline.call kept (discipline.good_later lead _ good) arity fun v member =>
        discipline.good_later lead v (given v member)
    exact .bind opens fun now inner _ opened => body opened
  · exact .failure (discipline.arityMismatch _ _)

theorem keeps_evaluate (channel : Channel) (levels : Nat) {e : Expr} (admitted : discipline.admits since env e) :
    discipline.Keeps since (evaluate channel levels e env) discipline.good := by
  induction levels generalizing e since env with
  | zero => exact .halted
  | succ levels ih =>
    have part : ∀ {a : Expr} {now : Progress}, since.LeadsTo now → a ∈ e.parts →
        discipline.Keeps now (evaluate channel levels a env) discipline.good :=
      fun lead member => ih (discipline.admits_later lead (discipline.parts admitted _ member))
    have each : ∀ {es : List Expr} {now : Progress}, since.LeadsTo now → (∀ a ∈ es, a ∈ e.parts) →
        discipline.Keeps now (evaluateEach channel levels es env) fun after values =>
          values.length = es.length ∧ ∀ v ∈ values, discipline.good after v :=
      fun lead members => .each discipline.good_later fun a member => part lead (members a member)
    cases e with
    | literal a => exact .pure fun _ lead => discipline.good_later lead _ (discipline.literal admitted)
    | var name =>
      intro before lead kept
      have still := discipline.admits_later lead admitted
      rw [evaluate_var, Eval.lookup_apply]
      cases found : before.store.lookup name env with
      | some v => exact ⟨.refl before, kept, discipline.found kept still found⟩
      | none => exact ⟨.refl before, kept, discipline.unbound still found⟩
    | binary glyph left right =>
      rw [evaluate_binary]
      cases known : BinaryOperator.ofGlyph? glyph with
      | none => exact .failure (discipline.unknownBinary admitted known)
      | some op =>
        refine .bind (part (.refl since) (by simp [Expr.parts])) fun now a lead first => ?_
        refine .bind (part lead (by simp [Expr.parts])) fun after b further second => ?_
        refine .operate fun before ending kept => ?_
        have still := discipline.admits_later (lead.trans (further.trans ending)) admitted
        exact discipline.operate levels kept still known (discipline.good_later (further.trans ending) a first)
          (discipline.good_later ending b second)
    | unary glyph operand =>
      rw [evaluate_unary]
      cases known : UnaryOperator.ofGlyph? glyph with
      | none => exact .failure (discipline.unknownUnary admitted known)
      | some op =>
        have evaluated : op ≠ .say → operand ∈ (Expr.unary glyph operand).parts := by
          intro silent
          have other : glyph ≠ UnaryOperator.say.glyph := by
            rintro rfl
            exact silent (Option.some.inj known).symm
          simp [Expr.parts, other]
        cases op with
        | say => exact .say fun before lead kept => discipline.say kept (discipline.admits_later lead admitted) known
        | not =>
          refine .bind (part (.refl since) (evaluated (by decide))) fun _ _ _ _ => ?_
          exact .pure fun _ _ => discipline.truth _
        | isZero =>
          refine .bind (part (.refl since) (evaluated (by decide))) fun _ _ _ _ => ?_
          exact .pure fun _ _ => discipline.truth _
    | conditional test yes no =>
      rw [evaluate_conditional]
      refine .bind (part (.refl since) (by simp [Expr.parts])) fun now v lead _ => ?_
      split
      · exact part lead (by simp [Expr.parts])
      · exact part lead (by simp [Expr.parts])
    | lambda params body => exact .pure fun _ lead => discipline.lambda (discipline.admits_later lead admitted)
    | apply callee args =>
      rw [evaluate_apply]
      refine .bind (part (.refl since) (by simp [Expr.parts])) fun now v lead good => ?_
      cases v with
      | closure c =>
        refine .bind (each lead fun a member => List.mem_cons_of_mem _ member) fun after values further given => ?_
        exact discipline.keeps_call (fun opened => ih opened) (discipline.good_later further _ good) given.2
      | atom a => exact .failure (discipline.notCallable good)
      | quoted q => exact .failure (discipline.notCallable good)
    | letIn bindings body =>
      rw [evaluate_letIn]
      refine .bind (each (.refl since) fun a member => member) fun now values lead given => ?_
      have length : values.length = bindings.length := by simpa using given.1
      have opens : discipline.Keeps now (Eval.extend env ((bindings.map (·.1)).zip values))
          (discipline.Opens body) := by
        refine .extend fun before further kept => ?_
        exact discipline.letIn kept (discipline.admits_later (lead.trans further) admitted) length fun v member =>
          discipline.good_later further v (given.2 v member)
      exact .bind opens fun _ _ _ opened => ih opened
    | letRec bindings body =>
      rw [evaluate_letRec]
      cases accepted : lambdasOf bindings with
      | error name => exact .failure (discipline.notAFunction admitted accepted)
      | ok lambdas =>
        obtain rfl := lambdasOf_eq_ok_iff.mp accepted
        have opens : discipline.Keeps since (Eval.extendRecursive env lambdas) (discipline.Opens body) := by
          refine .extendRecursive fun before lead kept => ?_
          exact discipline.letRec kept (discipline.admits_later lead admitted)
        exact .bind opens fun _ _ _ opened => ih opened
    | sequence first rest =>
      rw [evaluate_sequence]
      refine .last (part (.refl since) List.mem_cons_self) fun a member => ?_
      exact part (.refl since) (List.mem_cons_of_mem _ member)
    | fix functional =>
      rw [evaluate_fix]
      exact part (.refl since) List.mem_cons_self

/-- The discipline that asks nothing. What is left of it is that evaluation makes progress. -/
def onward : Discipline where
  inv _ := True
  permitted _ := True
  admits _ _ _ := True
  good _ _ := True
  admits_later _ _ := trivial
  good_later _ _ _ _ _ := trivial
  parts _ _ _ := trivial
  literal _ := trivial
  truth _ := trivial
  found _ _ _ := trivial
  unbound _ _ := trivial
  unknownBinary _ _ := trivial
  unknownUnary _ _ := trivial
  operate _ _ _ _ _ _ :=
    ⟨trivial, BinaryOperator.apply_satisfies _ _ _ _ _ (fun _ => trivial) trivial (fun _ => trivial) trivial⟩
  say _ _ _ := ⟨trivial, trivial⟩
  lambda _ := trivial
  notCallable _ := trivial
  arityMismatch _ _ := trivial
  call _ _ _ _ := ⟨trivial, trivial⟩
  letIn _ _ _ _ := ⟨trivial, trivial⟩
  notAFunction _ _ := trivial
  letRec _ _ := ⟨trivial, trivial⟩

end Discipline

/-- Evaluation makes progress, whatever comes of it. -/
theorem evaluate_leadsTo (channel : Channel) (levels : Nat) (e : Expr) (env : Env) (before : Progress) :
    before.LeadsTo (evaluate channel levels e env before).2 := by
  have keeps : Discipline.onward.Keeps before (evaluate channel levels e env) fun _ _ => True :=
    Discipline.onward.keeps_evaluate channel levels trivial
  exact (keeps before (.refl before) trivial).1

theorem call_leadsTo (channel : Channel) (levels : Nat) (c : Closure) (values : List Value) (before : Progress) :
    before.LeadsTo (c.call channel levels values before).2 := by
  have body : ∀ {now inner}, True →
      Discipline.onward.Keeps now (evaluate channel levels c.body inner) fun _ _ => True :=
    fun _ => Discipline.onward.keeps_evaluate channel levels trivial
  have keeps : Discipline.onward.Keeps before (c.call channel levels values) fun _ _ => True :=
    Discipline.onward.keeps_call body trivial fun _ _ => trivial
  exact (keeps before (.refl before) trivial).1

end CallByValue
