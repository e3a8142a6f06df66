import CallByValue.Proofs.Disciplines
import CallByValue.Proofs.Visits

/-!
# Invariants of one run

An invariant told for the visits that a run really makes. Other than a discipline,
it may refer to what has been visited: a frame is only ever made by a visit that
the run leads to.
-/

namespace CallByValue

namespace Visit

variable {channel : Channel} {levels : Nat} {env : Env}

theorem leadsTo_of_run {e : Expr} {outcome : Outcome Value} {before after : Progress}
    (run : evaluate channel levels e env before = (outcome, after)) : before.LeadsTo after := by
  have leads := evaluate_leadsTo channel levels e env before
  rwa [run] at leads

theorem leadsTo_of_each {es : List Expr} {outcome : Outcome (List Value)} {before after : Progress}
    (run : evaluateEach channel levels es env before = (outcome, after)) : before.LeadsTo after := by
  have keeps : Discipline.onward.Keeps before (evaluateEach channel levels es env)
      fun _ values => values.length = es.length ∧ ∀ v ∈ values, True :=
    .each Discipline.onward.good_later fun e _ => Discipline.onward.keeps_evaluate channel levels trivial
  have leads := (keeps before (.refl before) trivial).1
  rwa [run] at leads

end Visit

/-- What a run from its first visit on is to keep: an invariant of the progress, and the code that is fit for an
    environment. A closure is in order if its lambda is fit for the environment that it captures. -/
structure RunInvariant (channel : Channel) (root : Visit) where
  inv : Progress → Prop
  fit : Progress → Env → Expr → Prop
  fit_later : ∀ {now after env e}, now.LeadsTo after → fit now env e → fit after env e
  parts : ∀ {now env e}, fit now env e → ∀ part ∈ e.parts, fit now env part
  tick : ∀ {now}, inv now → inv now.tick
  tell : ∀ {now} e, inv now → inv (now.tell e)
  found : ∀ {now env name c}, inv now → now.store.lookup name env = some (.closure c) →
    fit now c.env (.lambda c.params c.body)
  opens : ∀ {v o}, root.LeadsTo channel v → v.Opens channel o → inv o.before → fit o.before o.outer o.form →
    (o.maker ≠ .recursion → ∀ name v, o.table.find? name = some v →
      ∀ c, v = .closure c → fit o.before c.env (.lambda c.params c.body)) →
    inv (o.before.push o.table) ∧ fit (o.before.push o.table) o.inner o.body

namespace RunInvariant

open Visit (Opens Part InOrder run)

variable {channel : Channel} {root : Visit} (kept : RunInvariant channel root) {levels : Nat} {env : Env}

/-- A closure is in order. -/
def Good (now : Progress) (v : Value) : Prop := ∀ c, v = .closure c → kept.fit now c.env (.lambda c.params c.body)

/-- A visit may begin. -/
def Ready (v : Visit) : Prop := kept.inv v.before ∧ kept.fit v.before v.env v.expr

/-- Some piece of a run keeps the invariant and, if it has a value, a good one. -/
def Ends {α : Type} (good : Progress → α → Prop) (run : Outcome α × Progress) : Prop :=
  kept.inv run.2 ∧ run.1.Satisfies (good run.2) fun _ => True

/-- A frame may be made. -/
structure Poised (o : Opening) : Prop where
  holds : kept.inv o.before
  fit : kept.fit o.before o.outer o.form
  entries : o.maker ≠ .recursion → ∀ name v, o.table.find? name = some v → kept.Good o.before v

variable {kept}

theorem Good.later {now after : Progress} {v : Value} (good : kept.Good now v) (lead : now.LeadsTo after) :
    kept.Good after v :=
  fun c same => kept.fit_later lead (good c same)

theorem good_atom (now : Progress) (a : Atom) : kept.Good now (.atom a) := by
  intro c same
  cases same

theorem good_quoted (now : Progress) (e : Expr) : kept.Good now (.quoted e) := by
  intro c same
  cases same

/-! ## How visits end -/

section
variable {α β : Type} {good : Progress → α → Prop} {better : Progress → β → Prop} {before after now : Progress}

theorem Ends.of_success {m : Eval α} {a : α} (ends : kept.Ends good (m before))
    (success : m before = (.success a, now)) : kept.inv now ∧ good now a := by
  rw [success] at ends
  exact ends

theorem Ends.bind {m : Eval α} {rest : α → Eval β} (first : kept.Ends good (m before))
    (next : ∀ a now, m before = (.success a, now) → kept.inv now → good now a → kept.Ends better (rest a now)) :
    kept.Ends better ((m >>= rest) before) := by
  cases same : m before with
  | mk outcome now =>
    cases outcome with
    | success a =>
      obtain ⟨holds, fine⟩ := first.of_success same
      rw [Eval.bind_of_success same]
      exact next a now same holds fine
    | failure e =>
      rw [same] at first
      rw [Eval.bind_of_failure same]
      exact first
    | halted h =>
      rw [same] at first
      rw [Eval.bind_of_halted same]
      exact first

end

/-- Values that are all in order. -/
def AllGood (now : Progress) (values : List Value) : Prop := ∀ v ∈ values, kept.Good now v

/-- Expressions visited in order have values in order. -/
theorem ends_each {es : List Expr} {now : Progress} (holds : kept.inv now)
    (visited : ∀ w, InOrder channel levels env es now w → kept.Ends kept.Good (w.run channel)) :
    kept.Ends kept.AllGood (evaluateEach channel levels es env now) := by
  induction es generalizing now with
  | nil => exact ⟨holds, nofun⟩
  | cons e es ih =>
    refine (visited _ .here).bind fun v mid first still fine => ?_
    refine (ih still fun w member => visited w (.later first member)).bind fun values last others kept allFine => ?_
    refine ⟨kept, fun w member => ?_⟩
    rcases List.mem_cons.mp member with rfl | member
    · exact fine.later (Visit.leadsTo_of_each others)
    · exact allFine w member

/-- A sequence has the value of its last item. -/
theorem ends_last {first : Expr} {rest : List Expr} {now : Progress}
    (visited : ∀ w, InOrder channel levels env (first :: rest) now w → kept.Ends kept.Good (w.run channel)) :
    kept.Ends kept.Good (Eval.last (fun e => evaluate channel levels e env) first rest now) := by
  induction rest generalizing first now with
  | nil => exact visited _ .here
  | cons e es ih =>
    refine (visited _ .here).bind fun _ mid run _ _ => ?_
    exact ih fun w member => visited w (.later run member)

/-- A visit ends as it should if it may begin and its parts end so. -/
theorem Ready.ends {v : Visit} (ready : kept.Ready v)
    (parts : ∀ w, Part channel v w → kept.Ends kept.Good (w.run channel)) : kept.Ends kept.Good (v.run channel) := by
  obtain ⟨levels, e, env, before⟩ := v
  obtain ⟨holds, fit⟩ := ready
  cases levels with
  | zero => exact ⟨holds, trivial⟩
  | succ levels =>
    change kept.Ends kept.Good (evaluate channel (levels + 1) e env before)
    cases e with
    | literal a => exact ⟨holds, good_atom before a⟩
    | lambda params body =>
      refine ⟨holds, fun c same => ?_⟩
      cases same
      exact fit
    | var name =>
      rw [evaluate_var, Eval.lookup_apply]
      cases found : before.store.lookup name env with
      | none => exact ⟨holds, trivial⟩
      | some v =>
        refine ⟨holds, fun c same => ?_⟩
        subst same
        exact kept.found holds found
    | binary glyph left right =>
      rw [evaluate_binary]
      cases known : BinaryOperator.ofGlyph? glyph with
      | none => exact ⟨holds, trivial⟩
      | some op =>
        refine (parts _ (.binary known .here)).bind fun a mid first _ _ => ?_
        refine (parts _ (.binary known (.later first .here))).bind fun b now _ still _ => ?_
        exact ⟨kept.tick still, op.apply_satisfies _ _ _ _ (good_atom _) trivial (fun _ => trivial) trivial⟩
    | unary glyph operand =>
      rw [evaluate_unary]
      cases known : UnaryOperator.ofGlyph? glyph with
      | none => exact ⟨holds, trivial⟩
      | some op =>
        cases op with
        | say =>
          change kept.Ends kept.Good (Eval.say channel levels operand before)
          rw [Eval.say_apply]
          cases channel.obstacle? levels operand with
          | none => exact ⟨kept.tell operand holds, good_quoted _ operand⟩
          | some h => exact ⟨holds, trivial⟩
        | not => exact (parts _ (.unary known (by decide))).bind fun _ now _ still _ => ⟨still, good_atom now _⟩
        | isZero => exact (parts _ (.unary known (by decide))).bind fun _ now _ still _ => ⟨still, good_atom now _⟩
    | conditional test yes no =>
      rw [evaluate_conditional]
      refine (parts _ .test).bind fun v now tested _ _ => ?_
      have branch := parts _ (.branch tested)
      split
      · next truth => rwa [if_pos truth] at branch
      · next truth => rwa [if_neg truth] at branch
    | apply callee args =>
      rw [evaluate_apply]
      refine (parts _ .callee).bind fun v mid called still _ => ?_
      cases v with
      | closure c =>
        have arguments := ends_each still fun w member => parts w (.argument called member)
        refine arguments.bind fun values now given last _ => ?_
        unfold Closure.call
        split
        · next arity => exact parts _ (.body (.call called given arity))
        · exact ⟨last, trivial⟩
      | atom a => exact ⟨still, trivial⟩
      | quoted q => exact ⟨still, trivial⟩
    | letIn bindings inner =>
      rw [evaluate_letIn]
      have values := ends_each holds fun w member => parts w (.bound member)
      exact values.bind fun values now bound _ _ => parts _ (.body (.letIn bound))
    | letRec bindings inner =>
      rw [evaluate_letRec]
      cases accepted : lambdasOf bindings with
      | error name => exact ⟨holds, trivial⟩
      | ok lambdas =>
        obtain rfl := lambdasOf_eq_ok_iff.mp accepted
        exact parts _ (.body .letRec)
    | sequence first rest =>
      rw [evaluate_sequence]
      exact ends_last (fun w member => parts w (.item member))
    | fix functional => exact parts _ .fix

/-! ## How visits begin -/

theorem ready_inOrder {es : List Expr} {now : Progress} {w : Visit} (visited : InOrder channel levels env es now w)
    (holds : kept.inv now) (fit : ∀ e ∈ es, kept.fit now env e)
    (ends : ∀ u, InOrder channel levels env es now u → kept.Ready u → kept.Ends kept.Good (u.run channel)) :
    kept.Ready w := by
  induction visited with
  | here => exact ⟨holds, fit _ List.mem_cons_self⟩
  | @later e es now v after w first _ ih =>
    have ready : kept.Ready ⟨levels, e, env, now⟩ := ⟨holds, fit e List.mem_cons_self⟩
    obtain ⟨still, _⟩ := (ends _ .here ready).of_success first
    refine ih still (fun a member => ?_) fun u member => ends u (.later first member)
    exact kept.fit_later (Visit.leadsTo_of_run first) (fit a (List.mem_cons_of_mem _ member))

/-- Expressions visited in order leave their values in order if each visit does so that may begin. -/
theorem ends_fit_each {es : List Expr} {now : Progress} (holds : kept.inv now) (fit : ∀ e ∈ es, kept.fit now env e)
    (ends : ∀ u, InOrder channel levels env es now u → kept.Ready u → kept.Ends kept.Good (u.run channel)) :
    kept.Ends kept.AllGood (evaluateEach channel levels es env now) :=
  ends_each holds fun w visited => ends w visited (ready_inOrder visited holds fit ends)

theorem Ready.poised {v : Visit} {o : Opening} (ready : kept.Ready v) (opens : Opens channel v o)
    (ends : ∀ u, Part channel v u → kept.Ready u → kept.Ends kept.Good (u.run channel)) : kept.Poised o := by
  obtain ⟨holds, fit⟩ := ready
  have inner := kept.parts fit
  cases opens with
  | @call levels callee args env before c mid values now called given arity =>
    have begins : kept.Ready ⟨levels, callee, env, before⟩ := ⟨holds, inner _ List.mem_cons_self⟩
    obtain ⟨still, good⟩ := (ends _ .callee begins).of_success called
    have argsFit : ∀ a ∈ args, kept.fit mid env a :=
      fun a member => kept.fit_later (Visit.leadsTo_of_run called) (inner a (List.mem_cons_of_mem _ member))
    have arguments := ends_fit_each still argsFit fun u visited => ends u (.argument called visited)
    obtain ⟨last, valuesGood⟩ := arguments.of_success given
    refine ⟨last, kept.fit_later (Visit.leadsTo_of_each given) (good c rfl), fun _ name v found => ?_⟩
    exact valuesGood v (List.of_mem_zip (Table.mem_of_find?_ofPairs found)).2
  | letIn bound =>
    have values := ends_fit_each holds inner fun u visited => ends u (.bound visited)
    obtain ⟨last, valuesGood⟩ := values.of_success bound
    refine ⟨last, kept.fit_later (Visit.leadsTo_of_each bound) fit, fun _ name v found => ?_⟩
    exact valuesGood v (List.of_mem_zip (Table.mem_of_find?_ofPairs found)).2
  | letRec => exact ⟨holds, fit, fun other => absurd rfl other⟩

theorem Ready.part {v w : Visit} (ready : kept.Ready v) (reached : root.LeadsTo channel v) (part : Part channel v w)
    (ends : ∀ u, Part channel v u → kept.Ready u → kept.Ends kept.Good (u.run channel)) : kept.Ready w := by
  have ⟨holds, fit⟩ := ready
  have inner := kept.parts fit
  cases part with
  | binary known operand => exact ready_inOrder operand holds inner fun u member => ends u (.binary known member)
  | @unary _ glyph op operand _ _ known other =>
    have notSay : glyph ≠ UnaryOperator.say.glyph := by
      rintro rfl
      exact other (Option.some.inj known).symm
    exact ⟨holds, inner operand (by simp [Expr.parts, notSay])⟩
  | test => exact ⟨holds, inner _ List.mem_cons_self⟩
  | @branch levels test yes no env before v mid tested =>
    have ready : kept.Ready ⟨levels, test, env, before⟩ := ⟨holds, inner _ List.mem_cons_self⟩
    obtain ⟨still, _⟩ := (ends _ .test ready).of_success tested
    refine ⟨still, kept.fit_later (Visit.leadsTo_of_run tested) (inner _ ?_)⟩
    change (if v.isTrue then yes else no) ∈ [test, yes, no]
    split <;> simp
  | callee => exact ⟨holds, inner _ List.mem_cons_self⟩
  | @argument levels callee args env before c mid w called argument =>
    have ready : kept.Ready ⟨levels, callee, env, before⟩ := ⟨holds, inner _ List.mem_cons_self⟩
    obtain ⟨still, _⟩ := (ends _ .callee ready).of_success called
    refine ready_inOrder argument still (fun a member => ?_) fun u visited => ends u (.argument called visited)
    exact kept.fit_later (Visit.leadsTo_of_run called) (inner a (List.mem_cons_of_mem _ member))
  | bound bound => exact ready_inOrder bound holds inner fun u member => ends u (.bound member)
  | item item => exact ready_inOrder item holds inner fun u member => ends u (.item member)
  | fix => exact ⟨holds, inner _ List.mem_cons_self⟩
  | body opens =>
    obtain ⟨now, outerFit, entries⟩ := ready.poised opens ends
    exact kept.opens reached opens now outerFit entries

/-- Every visit that a run makes begins and ends as it should. -/
theorem reached (ready : kept.Ready root) {v : Visit} (reached : root.LeadsTo channel v) :
    kept.Ready v ∧ kept.Ends kept.Good (v.run channel) := by
  have runs : ∀ levels v, v.levels = levels → root.LeadsTo channel v → kept.Ready v →
      kept.Ends kept.Good (v.run channel) := by
    intro levels
    induction levels with
    | zero =>
      intro v granted _ ready
      refine ready.ends fun w part => ?_
      rw [part.levels_eq] at granted
      cases granted
    | succ levels ih =>
      intro v granted reached ready
      have parts : ∀ w, Part channel v w → kept.Ready w → kept.Ends kept.Good (w.run channel) := by
        intro w part
        rw [part.levels_eq] at granted
        exact ih w (Nat.succ.inj granted) (reached.tail part)
      exact ready.ends fun w part => parts w part (ready.part reached part parts)
  have begins : kept.Ready v := by
    induction reached with
    | refl => exact ready
    | @tail v w further part ih =>
      exact ih.part further part fun u member => runs _ u rfl (further.tail member)
  exact ⟨begins, runs _ v rfl reached begins⟩

/-- Every frame that a run makes may be made. -/
theorem reached_poised (ready : kept.Ready root) {v : Visit} {o : Opening} (further : root.LeadsTo channel v)
    (opens : Opens channel v o) : kept.Poised o :=
  (reached ready further).1.poised opens fun _ part _ => (reached ready (further.tail part)).2

end RunInvariant

end CallByValue
