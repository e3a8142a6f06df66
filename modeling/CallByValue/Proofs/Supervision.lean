import CallByValue.Proofs.RunInvariants

/-!
# Disciplines during a run

A discipline tells how an evaluation ends. Since it is kept by every visit that may
begin, and a visit that may begin makes only visits that may begin, it also holds
of everything that a run does on its way.
-/

namespace CallByValue.Discipline

open Visit (Part InOrder)

variable {discipline : Discipline} {channel : Channel} {levels : Nat} {env : Env}

/-- A visit may begin: the invariant holds, and the expression is admitted in the environment. -/
def Ready (discipline : Discipline) (v : Visit) : Prop :=
  discipline.inv v.before ∧ discipline.admits v.before v.env v.expr

/-- A visit that may begin keeps the invariant, and ends in a good value or a permitted failure. -/
theorem Ready.ends {v : Visit} (ready : discipline.Ready v) :
    discipline.inv (v.run channel).2 ∧
      (v.run channel).1.Satisfies (discipline.good (v.run channel).2) discipline.permitted :=
  (discipline.keeps_evaluate channel v.levels ready.2 v.before (.refl _) ready.1).2

theorem ends_of_success {e : Expr} {now after : Progress} {v : Value} (holds : discipline.inv now)
    (admitted : discipline.admits now env e) (success : evaluate channel levels e env now = (.success v, after)) :
    discipline.inv after ∧ discipline.good after v := by
  have keeps := discipline.keeps_evaluate channel levels admitted now (.refl now) holds
  rw [success] at keeps
  exact keeps.2

/-- Expressions that may be visited in order leave their values good. -/
theorem ends_each {es : List Expr} {now after : Progress} {values : List Value} (holds : discipline.inv now)
    (admitted : ∀ e ∈ es, discipline.admits now env e)
    (given : evaluateEach channel levels es env now = (.success values, after)) :
    discipline.inv after ∧ values.length = es.length ∧ ∀ v ∈ values, discipline.good after v := by
  have keeps : discipline.Keeps now (evaluateEach channel levels es env) fun after values =>
      values.length = es.length ∧ ∀ v ∈ values, discipline.good after v :=
    .each discipline.good_later fun e member => discipline.keeps_evaluate channel levels (admitted e member)
  have ends := keeps now (.refl now) holds
  rw [given] at ends
  exact ends.2

theorem ready_inOrder {es : List Expr} {now : Progress} {w : Visit} (visited : InOrder channel levels env es now w)
    (holds : discipline.inv now) (admitted : ∀ e ∈ es, discipline.admits now env e) : discipline.Ready w := by
  induction visited with
  | here => exact ⟨holds, admitted _ List.mem_cons_self⟩
  | later first _ ih =>
    obtain ⟨still, _⟩ := ends_of_success holds (admitted _ List.mem_cons_self) first
    refine ih still fun a member => ?_
    exact discipline.admits_later (Visit.leadsTo_of_run first) (admitted a (List.mem_cons_of_mem _ member))

/-- A visit that may begin makes a frame only where the body may be visited in it. -/
theorem Ready.opening {v : Visit} {o : Opening} (ready : discipline.Ready v) (opens : v.Opens channel o) :
    discipline.inv (o.before.push o.table) ∧ discipline.admits (o.before.push o.table) o.inner o.body := by
  obtain ⟨holds, admitted⟩ := ready
  have parts := discipline.parts admitted
  cases opens with
  | @call levels callee args env before c mid values now called given arity =>
    obtain ⟨still, good⟩ := ends_of_success holds (parts callee List.mem_cons_self) called
    have argsAdmitted : ∀ a ∈ args, discipline.admits mid env a := fun a member =>
      discipline.admits_later (Visit.leadsTo_of_run called) (parts a (List.mem_cons_of_mem _ member))
    obtain ⟨last, _, valuesGood⟩ := ends_each still argsAdmitted given
    exact discipline.call last (discipline.good_later (Visit.leadsTo_of_each given) _ good) arity valuesGood
  | @letIn levels bindings body env before values now bound =>
    obtain ⟨last, length, valuesGood⟩ := ends_each holds parts bound
    have later := discipline.admits_later (Visit.leadsTo_of_each bound) admitted
    exact discipline.letIn last later (length.trans (List.length_map Prod.snd)) valuesGood
  | letRec => exact discipline.letRec holds admitted

/-- A visit that may begin makes only visits that may begin. -/
theorem Ready.part {v w : Visit} (ready : discipline.Ready v) (part : Part channel v w) : discipline.Ready w := by
  have ⟨holds, admitted⟩ := ready
  have parts := discipline.parts admitted
  cases part with
  | binary known operand => exact ready_inOrder operand holds parts
  | @unary levels glyph op operand env before known other =>
    have notSay : glyph ≠ UnaryOperator.say.glyph := by
      rintro rfl
      exact other (Option.some.inj known).symm
    exact ⟨holds, parts operand (by simp [Expr.parts, notSay])⟩
  | test => exact ⟨holds, parts _ List.mem_cons_self⟩
  | @branch levels test yes no env before v mid tested =>
    obtain ⟨still, _⟩ := ends_of_success holds (parts test List.mem_cons_self) tested
    refine ⟨still, discipline.admits_later (Visit.leadsTo_of_run tested) (parts _ ?_)⟩
    change (if v.isTrue then yes else no) ∈ [test, yes, no]
    split <;> simp
  | callee => exact ⟨holds, parts _ List.mem_cons_self⟩
  | @argument levels callee args env before c mid w called argument =>
    obtain ⟨still, _⟩ := ends_of_success holds (parts callee List.mem_cons_self) called
    refine ready_inOrder argument still fun a member => ?_
    exact discipline.admits_later (Visit.leadsTo_of_run called) (parts a (List.mem_cons_of_mem _ member))
  | bound bound => exact ready_inOrder bound holds parts
  | item item => exact ready_inOrder item holds parts
  | fix => exact ⟨holds, parts _ List.mem_cons_self⟩
  | body opens => exact ready.opening opens

/-- Every visit that a run makes may begin if the first one may. -/
theorem Ready.reached {root v : Visit} (ready : discipline.Ready root) (reached : root.LeadsTo channel v) :
    discipline.Ready v := by
  induction reached with
  | refl => exact ready
  | tail _ part ih => exact ih.part part

end CallByValue.Discipline
