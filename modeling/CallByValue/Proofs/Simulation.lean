import CallByValue.Proofs.Correspondence

/-!
# Simulation

Evaluations that correspond: from stages at which the runs are in step they come
to stages at which the runs are in step again, with corresponding outcomes. One
rule for each way of putting evaluations together, and from them one step of
evaluation, which leaves open what calls of names that can only be called do.
-/

namespace CallByValue

/-- Which run obliges the other: what it completes the other has to match. Where both do, the runs
    also stop together. -/
inductive Direction where
  | rightward
  | leftward
  | both

namespace Direction

/-- Do these outcomes have to correspond? -/
def Due {α β : Type} : Direction → Outcome α → Outcome β → Prop
  | rightward, left, _ => left.Completed
  | leftward, _, right => right.Completed
  | both, _, _ => True

/-- The run that has to match gets levels enough. -/
def Allows : Direction → Nat → Nat → Prop
  | rightward, levels, levels' => levels ≤ levels'
  | leftward, levels, levels' => levels' ≤ levels
  | both, levels, levels' => levels = levels'

variable {direction : Direction}

theorem Due.of_bind {α β γ δ : Type} {m : Eval α} {n : Eval β} {rest : α → Eval γ} {rest' : β → Eval δ}
    {before before' : Progress} (due : direction.Due ((m >>= rest) before).1 ((n >>= rest') before').1) :
    direction.Due (m before).1 (n before').1 := by
  cases direction with
  | both => trivial
  | _ => exact Eval.completed_of_bind due

/-- Where the outcomes have to correspond, both runs may look equally deep into what they compare. -/
theorem canCompare_eq {α β : Type} {levels levels' : Nat} (allows : direction.Allows levels levels') {v w : Value}
    {a : α} {b : β}
    (due : direction.Due
      (if BinaryOperator.canCompare levels v w then .success a else .halted .stackExhausted)
      (if BinaryOperator.canCompare levels' v w then .success b else .halted .stackExhausted)) :
    BinaryOperator.canCompare levels v w = BinaryOperator.canCompare levels' v w := by
  cases direction with
  | both => rw [show levels = levels' from allows]
  | rightward =>
    cases granted : BinaryOperator.canCompare levels v w with
    | true => rw [BinaryOperator.canCompare_mono allows granted]
    | false => rw [granted] at due; exact due.elim
  | leftward =>
    cases granted : BinaryOperator.canCompare levels' v w with
    | true => rw [BinaryOperator.canCompare_mono allows granted]
    | false => rw [granted] at due; exact due.elim

end Direction

/-- Where two runs come from a stage: to a later one at which they are in step, with corresponding outcomes. -/
def Meet {α β : Type} (regime : Regime) (now : Stage) (good : Stage → α → β → Prop)
    (left : Outcome α × Progress) (right : Outcome β × Progress) : Prop :=
  ∃ after : Stage, now.LeadsTo after ∧ InStep regime after ∧ after.left = left.2 ∧ after.right = right.2 ∧
    left.1.Rel (good after) after.Failures right.1

/-- Two runs have come to outcomes that are alike and have said the same since they began. -/
def RunsAlike (before before' : Progress) (run run' : Outcome Value × Progress) : Prop :=
  run.1.Alike run'.1 ∧ ∃ spoken, run.2.said.toList = before.said.toList ++ spoken ∧
    run'.2.said.toList = before'.said.toList ++ spoken

/-- Of outcomes that are alike both complete or neither does. -/
theorem Outcome.Alike.completed_iff {o q : Outcome Value} (alike : o.Alike q) : o.Completed ↔ q.Completed :=
  Outcome.Rel.completed_iff alike

/-- Where runs meet, they have said the same and end alike. -/
theorem Meet.runsAlike {regime : Regime} {now : Stage} {before before' : Progress}
    {run run' : Outcome Value × Progress} (meets : Meet regime now Stage.Values run run')
    (left : regime.saidLeft = before.said.toList) (right : regime.saidRight = before'.said.toList) :
    RunsAlike before before' run run' := by
  obtain ⟨after, _, inStep, ended, ended', outcomes⟩ := meets
  obtain ⟨spoken, said, said'⟩ := inStep.said
  rw [ended, left] at said
  rw [ended', right] at said'
  exact ⟨outcomes.imp (fun _ _ => Stage.Values.alike) fun _ _ => Stage.Failures.alike, spoken, said, said'⟩

/-- From some stage on, two evaluations make their runs meet. -/
def Corresponds {α β : Type} (regime : Regime) (direction : Direction) (since : Stage) (m : Eval α) (n : Eval β)
    (good : Stage → α → β → Prop) : Prop :=
  ∀ now, since.LeadsTo now → InStep regime now → direction.Due (m now.left).1 (n now.right).1 →
    Meet regime now good (m now.left) (n now.right)

namespace Corresponds

variable {α β γ δ : Type} {regime : Regime} {direction : Direction} {since : Stage}

theorem later {m : Eval α} {n : Eval β} {good : Stage → α → β → Prop}
    (corresponds : Corresponds regime direction since m n good) {now : Stage} (lead : since.LeadsTo now) :
    Corresponds regime direction now m n good :=
  fun after further => corresponds after (lead.trans further)

theorem pure {a : α} {b : β} {good : Stage → α → β → Prop} (holds : ∀ after, since.LeadsTo after → good after a b) :
    Corresponds regime direction since (Pure.pure a) (Pure.pure b) good :=
  fun now lead inStep _ => ⟨now, .refl now, inStep, rfl, rfl, .success (holds now lead)⟩

theorem failure {e f : Failure} {good : Stage → α → β → Prop} (blamed : since.Failures e f) :
    Corresponds regime direction since (.ended (.failure e)) (.ended (.failure f)) good :=
  fun now lead inStep _ => ⟨now, .refl now, inStep, rfl, rfl, .failure (blamed.later lead)⟩

theorem halted {h : Halt} {good : Stage → α → β → Prop} :
    Corresponds regime direction since (.ended (.halted h)) (.ended (.halted h)) good :=
  fun now _ inStep _ => ⟨now, .refl now, inStep, rfl, rfl, .halted h⟩

theorem bind {m : Eval α} {n : Eval β} {rest : α → Eval γ} {rest' : β → Eval δ} {good : Stage → α → β → Prop}
    {better : Stage → γ → δ → Prop} (first : Corresponds regime direction since m n good)
    (next : ∀ now a b, since.LeadsTo now → good now a b →
      Corresponds regime direction now (rest a) (rest' b) better) :
    Corresponds regime direction since (m >>= rest) (n >>= rest') better := by
  intro now lead inStep due
  obtain ⟨after, further, stillInStep, left, right, outcomes⟩ := first now lead inStep due.of_bind
  cases run : m now.left with
  | mk outcome progress =>
    cases run' : n now.right with
    | mk outcome' progress' =>
      rw [run] at left outcomes
      rw [run'] at right outcomes
      obtain rfl : after.left = progress := left
      obtain rfl : after.right = progress' := right
      cases outcomes with
      | success holds =>
        rw [Eval.bind_of_success run, Eval.bind_of_success run'] at due ⊢
        obtain ⟨last, more, ending⟩ :=
          next after _ _ (lead.trans further) holds after (.refl after) stillInStep due
        exact ⟨last, further.trans more, ending⟩
      | failure blamed =>
        rw [Eval.bind_of_failure run, Eval.bind_of_failure run']
        exact ⟨after, further, stillInStep, rfl, rfl, .failure blamed⟩
      | halted h =>
        rw [Eval.bind_of_halted run, Eval.bind_of_halted run']
        exact ⟨after, further, stillInStep, rfl, rfl, .halted h⟩

theorem each {f g : Expr → Eval Value} {es : List Expr}
    (all : ∀ e ∈ es, Corresponds regime direction since (f e) (g e) Stage.Values) :
    Corresponds regime direction since (Eval.each f es) (Eval.each g es)
      (fun after vs ws => vs.length = es.length ∧ List.Forall₂ after.Values vs ws) := by
  induction es with
  | nil => exact .pure fun _ _ => ⟨rfl, .nil⟩
  | cons e es ih =>
    have others := ih fun other member => all other (List.mem_cons_of_mem _ member)
    refine .bind (all e List.mem_cons_self) fun now v w lead values => ?_
    refine .bind (others.later lead) fun last vs ws further given => ?_
    refine .pure fun after ending => ⟨by simp [given.1], .cons (values.later (further.trans ending)) ?_⟩
    exact given.2.imp fun _ _ inner => Stage.Values.later inner ending

theorem last {f g : Expr → Eval Value} {e : Expr} {es : List Expr}
    (first : Corresponds regime direction since (f e) (g e) Stage.Values)
    (others : ∀ e ∈ es, Corresponds regime direction since (f e) (g e) Stage.Values) :
    Corresponds regime direction since (Eval.last f e es) (Eval.last g e es) Stage.Values := by
  induction es generalizing e with
  | nil => exact first
  | cons next rest ih =>
    have tail := ih (others next List.mem_cons_self) fun other member => others other (List.mem_cons_of_mem _ member)
    exact .bind first fun now _ _ lead _ => tail.later lead

theorem operate (op : BinaryOperator) {levels levels' : Nat} (allows : direction.Allows levels levels')
    {v w v' w' : Value} (first : since.Values v w) (second : since.Values v' w') :
    Corresponds regime direction since (Eval.operate op levels v v') (Eval.operate op levels' w w')
      Stage.Values := by
  intro now lead inStep due
  have depths : ∀ {c d : Closure}, now.Closures c d → c.body = d.body := fun closures => closures.body
  have granted : op.arithmetic? now.left.store.nextMark = none →
      BinaryOperator.canCompare levels v v' = BinaryOperator.canCompare levels' w w' := by
    intro comparison
    have same : BinaryOperator.canCompare levels' w w' = BinaryOperator.canCompare levels' v v' := by
      unfold BinaryOperator.canCompare
      rw [(first.later lead).depth_eq depths, (second.later lead).depth_eq depths]
    rw [same]
    have none' : op.arithmetic? now.right.store.nextMark = none := by
      cases op <;> first | rfl | cases comparison
    rw [Eval.operate_apply, Eval.operate_apply] at due
    simp only [BinaryOperator.apply, comparison, none', same] at due
    exact direction.canCompare_eq allows due
  have further : now.LeadsTo ⟨now.world, now.left.tick, now.right.tick⟩ :=
    ⟨id, now.left.leadsTo_tick, now.right.leadsTo_tick⟩
  have stillInStep := inStep.later further Iff.rfl inStep.said
  have outcomes := op.apply_rel now.left.store.nextMark now.right.store.nextMark stillInStep.same_eq
    (first.later (lead.trans further)) (second.later (lead.trans further)) granted
  exact ⟨_, further, stillInStep, rfl, rfl, outcomes⟩

theorem say (channel : Channel) {levels levels' : Nat} (allows : direction.Allows levels levels') (e : Expr) :
    Corresponds regime direction since (Eval.say channel levels e) (Eval.say channel levels' e) Stage.Values := by
  intro now lead inStep due
  have same : channel.obstacle? levels e = channel.obstacle? levels' e := by
    rw [Eval.say_apply, Eval.say_apply] at due
    cases direction with
    | both => rw [show levels = levels' from allows]
    | rightward =>
      cases taken : channel.obstacle? levels e with
      | none => rw [channel.obstacle?_mono allows taken]
      | some h => rw [taken] at due; exact due.elim
    | leftward =>
      cases taken : channel.obstacle? levels' e with
      | none => rw [channel.obstacle?_mono allows taken]
      | some h => rw [taken] at due; exact due.elim
  rw [Eval.say_apply, Eval.say_apply, same]
  cases channel.obstacle? levels' e with
  | some h => exact ⟨now, .refl now, inStep, rfl, rfl, .halted h⟩
  | none =>
    have further : now.LeadsTo ⟨now.world, now.left.tell e, now.right.tell e⟩ :=
      ⟨id, now.left.leadsTo_tell e, now.right.leadsTo_tell e⟩
    obtain ⟨spoken, left, right⟩ := inStep.said
    refine ⟨_, further, inStep.later further Iff.rfl ⟨spoken ++ [e], ?_, ?_⟩, rfl, rfl, .success (.quoted e)⟩
    · simp [Progress.tell, left]
    · simp [Progress.tell, right]

theorem lookup {a b : Env} {scope : Expr.Scope} {name : Text} (pair : since.world a b scope)
    (plain : scope.plain name) :
    Corresponds regime direction since (Eval.lookup name a) (Eval.lookup name b) Stage.Values := by
  intro now lead inStep _
  rw [Eval.lookup_apply, Eval.lookup_apply]
  have found := (inStep.agree (lead.world pair)).plain name plain
  generalize now.left.store.lookup name a = v at found ⊢
  generalize now.right.store.lookup name b = w at found ⊢
  cases found with
  | some values => exact ⟨now, .refl now, inStep, rfl, rfl, .success values⟩
  | none => exact ⟨now, .refl now, inStep, rfl, rfl, .failure (.unbound name)⟩

/-- A new environment on either side, which stand for each other for the names of a scope. -/
def Opened (scope : Expr.Scope) (after : Stage) (inner inner' : Env) : Prop := after.world inner inner' scope

theorem extend {a b : Env} {scope : Expr.Scope} {names : List Text} {vs ws : List Value}
    (agree : ∀ now, since.LeadsTo now → InStep regime now → Agree regime now a b scope)
    (length : names.length = vs.length) (given : List.Forall₂ since.Values vs ws) :
    Corresponds regime direction since (Eval.extend a (names.zip vs)) (Eval.extend b (names.zip ws))
      (Opened (scope.bind names)) := by
  intro now lead inStep _
  let table := Table.ofPairs (names.zip vs)
  let table' := Table.ofPairs (names.zip ws)
  have further := now.leadsTo_push a b (scope.bind names) table table'
  have entries : Entries (now.push a b (scope.bind names) table table') names table table' := by
    have keys : (names.zip vs).map (·.1) = names := List.map_fst_zip (Nat.le_of_eq length)
    refine ⟨fun x => ?_, fun x => ?_⟩
    · rw [ne_eq, Table.find?_ofPairs_eq_none, keys, Decidable.not_not]
    · have values := given.imp fun _ _ inner => Stage.Values.later inner (lead.trans further)
      exact Table.find?_ofPairs_rel (Table.pairs_zip names values) x
  exact ⟨_, further, inStep.push (agree now lead inStep) entries, rfl, rfl, .success (.inr ⟨rfl, rfl, rfl⟩)⟩

/-- Closures of the same lambdas over either new frame correspond because the frames do. -/
theorem extendRecursive {a b : Env} {scope : Expr.Scope} {lambdas : List (Text × List Text × Expr)}
    (agree : ∀ now, since.LeadsTo now → InStep regime now → Agree regime now a b scope)
    (within : ∀ name params body, (name, params, body) ∈ lambdas →
      body.Within ((scope.bind (lambdas.map (·.1))).bind params)) :
    Corresponds regime direction since (Eval.extendRecursive a lambdas) (Eval.extendRecursive b lambdas)
      (Opened (scope.bind (lambdas.map (·.1)))) := by
  intro now lead inStep _
  let pairs := Eval.recursivePairs lambdas (now.left.store.next a)
  let pairs' := Eval.recursivePairs lambdas (now.right.store.next b)
  let after := now.push a b (scope.bind (lambdas.map (·.1))) (.ofPairs pairs) (.ofPairs pairs')
  have closures : ∀ entry ∈ lambdas, after.Values (.closure ⟨entry.2.1, entry.2.2, now.left.store.next a⟩)
      (.closure ⟨entry.2.1, entry.2.2, now.right.store.next b⟩) := by
    intro entry member
    exact .closure ⟨rfl, rfl, _, .inr ⟨rfl, rfl, rfl⟩, within _ _ _ member⟩
  have entries : Entries after (lambdas.map (·.1)) (.ofPairs pairs) (.ofPairs pairs') := by
    have keys : pairs.map (·.1) = lambdas.map (·.1) := by simp [pairs, Eval.recursivePairs, Function.comp_def]
    refine ⟨fun x => ?_, Table.find?_ofPairs_rel ?_⟩
    · rw [ne_eq, Table.find?_ofPairs_eq_none, keys, Decidable.not_not]
    · refine List.forall₂_map_left_iff.mpr (List.forall₂_map_right_iff.mpr (List.forall₂_same.mpr ?_))
      exact fun entry member => ⟨rfl, closures entry member⟩
  exact ⟨after, now.leadsTo_push .., inStep.push (agree now lead inStep) entries, rfl, rfl,
    .success (.inr ⟨rfl, rfl, rfl⟩)⟩

end Corresponds

/-! ## One step -/

section
variable {regime : Regime} {direction : Direction} {channel : Channel} {levels levels' : Nat} {since : Stage}

/-- Within every scope, an expression comes to corresponding ends in environments that stand for each other. -/
def Faithful (regime : Regime) (direction : Direction) (channel : Channel) (levels levels' : Nat) (e : Expr) : Prop :=
  ∀ ⦃since : Stage⦄ ⦃a b : Env⦄ ⦃scope : Expr.Scope⦄, since.world a b scope → e.Within scope →
    Corresponds regime direction since (evaluate channel levels e a) (evaluate channel levels' e b) Stage.Values

theorem InStep.agree_of_pair {a b : Env} {scope : Expr.Scope} (pair : since.world a b scope) (now : Stage)
    (lead : since.LeadsTo now) (inStep : InStep regime now) : Agree regime now a b scope :=
  inStep.agree (lead.world pair)

/-- Closures of one lambda may be called with corresponding values, over environments that agree on what the
    body needs, if the body is faithful. -/
theorem corresponds_call_of_agree {c d : Closure} {scope : Expr.Scope} {vs ws : List Value}
    (params : c.params = d.params) (same : c.body = d.body)
    (agree : ∀ now, since.LeadsTo now → InStep regime now → Agree regime now c.env d.env scope)
    (within : c.body.Within (scope.bind c.params)) (given : List.Forall₂ since.Values vs ws)
    (body : Faithful regime direction channel levels levels' c.body) :
    Corresponds regime direction since (c.call channel levels vs) (d.call channel levels' ws) Stage.Values := by
  unfold Closure.call Closure.arity
  rw [← params, ← same, ← given.length_eq]
  split
  · next arity =>
    exact .bind (.extend agree arity.symm given) fun now inner inner' _ opened => body opened within
  · exact .failure (.arityMismatch _ _)

/-- Corresponding closures may be called with corresponding values if the body is faithful. -/
theorem corresponds_call {c d : Closure} {vs ws : List Value} (closures : since.Closures c d)
    (given : List.Forall₂ since.Values vs ws) (body : Faithful regime direction channel levels levels' c.body) :
    Corresponds regime direction since (c.call channel levels vs) (d.call channel levels' ws) Stage.Values := by
  obtain ⟨scope, pair, within⟩ := closures.captured
  exact corresponds_call_of_agree closures.params closures.body (InStep.agree_of_pair pair) within given body

/-- If all expressions are faithful with so many levels, they are with one level more, as long as calls of
    names that can only be called are. -/
theorem faithful_step (allows : direction.Allows levels levels')
    (ih : ∀ e, Faithful regime direction channel levels levels' e)
    (calls : ∀ {since : Stage} {a b : Env} {scope : Expr.Scope} {name : Text} {arg : Expr},
      since.world a b scope → scope.called name → arg.Within scope →
        Corresponds regime direction since (evaluate channel (levels + 1) (.apply (.var name) [arg]) a)
          (evaluate channel (levels' + 1) (.apply (.var name) [arg]) b) Stage.Values)
    (e : Expr) : Faithful regime direction channel (levels + 1) (levels' + 1) e := by
  intro since a b scope pair within
  have part : ∀ {e : Expr} {now : Stage}, since.LeadsTo now → e.Within scope →
      Corresponds regime direction now (evaluate channel levels e a) (evaluate channel levels' e b) Stage.Values :=
    fun lead inside => ih _ (lead.world pair) inside
  have parts : ∀ {es : List Expr} {now : Stage}, since.LeadsTo now → (∀ e ∈ es, e.Within scope) →
      Corresponds regime direction now (evaluateEach channel levels es a) (evaluateEach channel levels' es b)
        fun after vs ws => vs.length = es.length ∧ List.Forall₂ after.Values vs ws :=
    fun lead inside => .each fun e member => part lead (inside e member)
  cases e with
  | literal a => exact .pure fun _ _ => .atom rfl
  | var name => exact .lookup pair within
  | binary glyph left right =>
    rw [evaluate_binary, evaluate_binary]
    cases BinaryOperator.ofGlyph? glyph with
    | none => exact .failure (.unknownOperator glyph)
    | some op =>
      refine .bind (part (.refl since) within.1) fun now v w lead first => ?_
      refine .bind (part lead within.2) fun after v' w' further second => ?_
      exact .operate op allows (first.later further) second
  | unary glyph operand =>
    rw [evaluate_unary, evaluate_unary]
    cases known : UnaryOperator.ofGlyph? glyph with
    | none => exact .failure (.unknownOperator glyph)
    | some op =>
      have inside : op ≠ .say → operand.Within scope := by
        intro silent
        refine within.resolve_left ?_
        rintro rfl
        exact silent (Option.some.inj known).symm
      cases op with
      | say => exact .say channel allows operand
      | not =>
        refine .bind (part (.refl since) (inside (by decide))) fun now v w _ values => .pure fun _ _ => ?_
        rw [Value.negated, values.isTrue_eq]
        exact .atom rfl
      | isZero =>
        refine .bind (part (.refl since) (inside (by decide))) fun now v w _ values => .pure fun _ _ => ?_
        rw [values.zeroTest_eq]
        exact .atom rfl
  | conditional test yes no =>
    rw [evaluate_conditional, evaluate_conditional]
    refine .bind (part (.refl since) within.1) fun now v w lead values => ?_
    rw [values.isTrue_eq]
    split
    · exact part lead within.2.1
    · exact part lead within.2.2
  | lambda params body => exact .pure fun after lead => .closure ⟨rfl, rfl, scope, lead.world pair, within⟩
  | apply callee args =>
    rcases within.1 with plain | ⟨name, arg, rfl, rfl, called⟩
    · rw [evaluate_apply, evaluate_apply]
      refine .bind (part (.refl since) plain) fun now v w lead values => ?_
      cases values with
      | closure closures =>
        refine .bind (parts lead (Expr.withinAll_iff.mp within.2)) fun after vs ws further given => ?_
        exact corresponds_call (closures.later further) given.2 (ih _)
      | atom same => exact .failure (.notCallable (.atom same))
      | quoted e => exact .failure (.notCallable (.quoted e))
    · exact calls pair called within.2.1
  | letIn bindings body =>
    rw [evaluate_letIn, evaluate_letIn]
    refine .bind (parts (.refl since) (Expr.withinBindings_iff.mp within.1)) fun now vs ws lead given => ?_
    have length : (bindings.map (·.1)).length = vs.length := by simp [given.1]
    refine .bind (.extend (InStep.agree_of_pair (lead.world pair)) length given.2) fun after inner inner' _ opened => ?_
    exact ih body opened within.2
  | letRec bindings body =>
    rw [evaluate_letRec, evaluate_letRec]
    cases accepted : lambdasOf bindings with
    | error name => exact .failure (.notAFunction name)
    | ok lambdas =>
      obtain rfl := lambdasOf_eq_ok_iff.mp accepted
      obtain ⟨bound, inside⟩ := within
      rw [names_lambdaBindings] at bound inside
      refine .bind (.extendRecursive (InStep.agree_of_pair pair) ?_) fun now inner inner' _ opened => ?_
      · intro name params body member
        exact Expr.withinBindings_iff.mp bound _ (lambda_mem_lambdaBindings member)
      · exact ih body opened inside
  | sequence first rest =>
    rw [evaluate_sequence, evaluate_sequence]
    exact .last (part (.refl since) within.1) fun e member =>
      part (.refl since) (Expr.withinAll_iff.mp within.2 e member)
  | fix functional =>
    rw [evaluate_fix, evaluate_fix]
    exact part (.refl since) (Expr.Within.fixedPoint within)

end

end CallByValue
