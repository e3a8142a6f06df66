import CallByValue.Proofs.Soundness

/-!
# Evaluation and its rules

Evaluation is sound and complete for the big-step semantics: under some budget a
run ends in an outcome if and only if the rules derive it, with the same
expressions said in the same order and the same store left behind. A channel has
its say only in that it may be unable to write an expression that is said.
-/

namespace CallByValue

namespace Eval

variable {α β : Type} {channel : Channel}

/-- From a store, whatever was said before, some budget takes the runs to an outcome and another store,
    if the channel takes what is said on the way. -/
def Reaches (channel : Channel) (run : Nat → Eval α) : Rule α := fun store outcome said after =>
  (∀ x ∈ said, channel.Takes x) → ∀ spoken, Settles run ⟨store, spoken⟩ outcome ⟨after, spoken ++ said.toArray⟩

namespace Reaches

variable {run : Nat → Eval α} {rest : Nat → α → Eval β} {store mid after : Store} {outcome : Outcome β}
  {said more : List Expr} {a : α} {e : Failure}

theorem bind (first : Reaches channel run store (.success a) said mid) (rising : Rising run)
    (risingRest : ∀ a, Rising (rest · a)) (second : Reaches channel (rest · a) mid outcome more after) :
    Reaches channel (fun levels => run levels >>= rest levels) store outcome (said ++ more) after := by
  intro taken spoken
  obtain ⟨early, late⟩ := List.forall_mem_append.mp taken
  obtain ⟨completed, least, ends⟩ := second late (spoken ++ said.toArray)
  obtain ⟨levels, le, run'⟩ := (first early spoken).above rising least
  have again := risingRest a le _ (by rw [ends]; exact completed)
  refine ⟨completed, levels, ?_⟩
  change (run levels >>= rest levels) _ = _
  rw [bind_of_success run']
  simpa [ends] using again

theorem stop (first : Reaches channel run store (.failure e) said after) :
    Reaches channel (fun levels => run levels >>= rest levels) store (.failure e) said after := by
  intro taken spoken
  obtain ⟨_, levels, ends⟩ := first taken spoken
  exact ⟨trivial, levels, bind_of_failure ends _⟩

theorem silent {outcome : Outcome α} (completed : outcome.Completed)
    (still : ∀ levels spoken, run levels ⟨store, spoken⟩ = (outcome, ⟨store, spoken⟩)) :
    Reaches channel run store outcome [] store :=
  fun _ spoken => ⟨completed, 0, by simpa using still 0 spoken⟩

theorem say {e : Expr} :
    Reaches channel (fun levels => Eval.say channel levels e) store (.success (.quoted e)) [e] store := by
  intro taken spoken
  obtain ⟨levels, none⟩ := taken e List.mem_cons_self
  refine ⟨trivial, levels, ?_⟩
  change Eval.say channel levels e _ = _
  rw [say_apply, none]
  simp [Progress.tell]

/-- An operator needs a budget that suffices to compare its operands. -/
theorem operate {op : BinaryOperator} {a b : Value} {outcome : Outcome Value}
    (yields : BinaryOperator.Yields store.nextMark op a b outcome) :
    Reaches channel (fun levels => Eval.operate op levels a b) store outcome [] store.tick := by
  intro _ spoken
  have granted := BinaryOperator.canCompare_of_le (Nat.le_refl (2 * a.depth)) (b := b)
  refine ⟨by cases yields <;> trivial, 2 * a.depth, ?_⟩
  change Eval.operate op (2 * a.depth) a b _ = _
  rw [operate_apply, yields.apply_eq granted]
  simp [Progress.tick, Store.tick]

/-- What goes on in a new frame. -/
theorem extend {rest : Nat → Env → Eval β} {env : Env} {pairs : List (Text × Value)}
    (inside : Reaches channel (rest · (store.next env)) (store.push (.ofPairs pairs)) outcome said after) :
    Reaches channel (fun levels => Eval.extend env pairs >>= rest levels) store outcome said after :=
  fun taken spoken => inside taken spoken

theorem extendRecursive {rest : Nat → Env → Eval β} {env : Env} {lambdas : List (Text × List Text × Expr)}
    (inside : Reaches channel (rest · (store.next env))
      (store.push (.ofPairs (recursivePairs lambdas (store.next env)))) outcome said after) :
    Reaches channel (fun levels => Eval.extendRecursive env lambdas >>= rest levels) store outcome said after :=
  fun taken spoken => inside taken spoken

end Reaches

end Eval

theorem Rising.bind {α β : Type} {run : Nat → Eval α} {rest : Nat → α → Eval β} (rising : Rising run)
    (others : ∀ a, Rising (rest · a)) : Rising fun levels => run levels >>= rest levels :=
  fun _ _ le => .bind (rising le) fun a => others a le

theorem Rising.same {α : Type} (m : Eval α) : Rising fun _ => m := fun _ _ _ => .refl m

theorem rising_operate (op : BinaryOperator) (a b : Value) : Rising fun levels => Eval.operate op levels a b :=
  fun _ _ le => .operate op le a b

theorem rising_evaluateEach (channel : Channel) (es : List Expr) (env : Env) :
    Rising fun levels => evaluateEach channel levels es env :=
  fun _ _ le => .each (fun e => evaluate_below channel le e env) es

theorem rising_last (channel : Channel) (e : Expr) (es : List Expr) (env : Env) :
    Rising fun levels => Eval.last (fun e => evaluate channel levels e env) e es :=
  fun _ _ le => .last (fun e => evaluate_below channel le e env) e es

theorem rising_arguments (channel : Channel) (args : List Expr) (env : Env) (v : Value) :
    Rising fun levels => v.call channel levels (evaluateEach channel levels args env) := by
  cases v with
  | closure c => exact (rising_evaluateEach channel args env).bind fun values => rising_call channel c values
  | _ => exact .same _

/-- What evaluation of an expression comes to without a budget. -/
abbrev Reached (channel : Channel) (env : Env) (e : Expr) : Rule Value :=
  Eval.Reaches channel fun levels => evaluate channel levels e env

abbrev ReachedEach (channel : Channel) (env : Env) (es : List Expr) : Rule (List Value) :=
  Eval.Reaches channel fun levels => evaluateEach channel levels es env

namespace Reached
open Eval (Reaches)

variable {channel : Channel} {store mid before after : Store} {env : Env} {outcome : Outcome Value}
  {said more rest : List Expr} {e : Expr} {x : Failure} {a b v : Value}

theorem of_succ
    (reaches : Reaches channel (fun levels => evaluate channel (levels + 1) e env) store outcome said after) :
    Reached channel env e store outcome said after := by
  intro taken spoken
  obtain ⟨completed, levels, ends⟩ := reaches taken spoken
  exact ⟨completed, levels + 1, ends⟩

/-- An expression whose evaluation neither says anything nor touches the store. -/
theorem of_silent (completed : outcome.Completed)
    (still : ∀ levels spoken, evaluate channel (levels + 1) e env ⟨store, spoken⟩ = (outcome, ⟨store, spoken⟩)) :
    Reached channel env e store outcome [] store := of_succ (.silent completed still)

theorem binary {op : BinaryOperator} {left right : Expr}
    (first : Reached channel env left store (.success a) said mid)
    (second : Reached channel env right mid (.success b) more after)
    (result : BinaryOperator.Yields after.nextMark op a b outcome) :
    Reached channel env (.binary op.glyph left right) store outcome (said ++ more) after.tick := by
  refine of_succ ?_
  simp only [evaluate_binary, BinaryOperator.ofGlyph?_glyph]
  have others := second.bind (rising_evaluate channel right env) (rising_operate op a) (.operate result)
  rw [List.append_nil] at others
  exact first.bind (rising_evaluate channel left env)
    (fun a => (rising_evaluate channel right env).bind (rising_operate op a)) others

theorem binaryLeft {op : BinaryOperator} {left right : Expr}
    (first : Reached channel env left store (.failure x) said after) :
    Reached channel env (.binary op.glyph left right) store (.failure x) said after := by
  refine of_succ ?_
  simp only [evaluate_binary, BinaryOperator.ofGlyph?_glyph]
  exact first.stop

theorem binaryRight {op : BinaryOperator} {left right : Expr}
    (first : Reached channel env left store (.success a) said mid)
    (second : Reached channel env right mid (.failure x) more after) :
    Reached channel env (.binary op.glyph left right) store (.failure x) (said ++ more) after := by
  refine of_succ ?_
  simp only [evaluate_binary, BinaryOperator.ofGlyph?_glyph]
  exact first.bind (rising_evaluate channel left env)
    (fun a => (rising_evaluate channel right env).bind (rising_operate op a)) second.stop

theorem say {operand : Expr} :
    Reached channel env (.unary UnaryOperator.say.glyph operand) store (.success (.quoted operand)) [operand]
      store := by
  refine of_succ ?_
  simp only [evaluate_unary, UnaryOperator.ofGlyph?_glyph]
  exact .say

/-- An operator other than `say` fails as its operand does, and otherwise turns its value into another one. -/
theorem unary {operand : Expr} {op : UnaryOperator} {g : Value → Value}
    (form : ∀ levels, evaluate channel (levels + 1) (.unary op.glyph operand) env =
      evaluate channel levels operand env >>= fun v => pure (g v))
    (part : Reached channel env operand store (.success v) said after) :
    Reached channel env (.unary op.glyph operand) store (.success (g v)) said after := by
  refine of_succ ?_
  simp only [form]
  have returns : Reaches channel (fun _ => (pure (g v) : Eval Value)) after (.success (g v)) [] after :=
    .silent trivial fun _ _ => rfl
  have whole := part.bind (rising_evaluate channel operand env) (fun v => .same (pure (g v))) returns
  rwa [List.append_nil] at whole

theorem unaryOperand {operand : Expr} {op : UnaryOperator} (evaluated : op ≠ .say)
    (part : Reached channel env operand store (.failure x) said after) :
    Reached channel env (.unary op.glyph operand) store (.failure x) said after := by
  refine of_succ ?_
  simp only [evaluate_unary, UnaryOperator.ofGlyph?_glyph]
  cases op with
  | say => exact absurd rfl evaluated
  | not => exact part.stop
  | isZero => exact part.stop

theorem conditional {test yes no : Expr} (first : Reached channel env test store (.success v) said mid)
    (second : Reached channel env (if v.isTrue then yes else no) mid outcome more after) :
    Reached channel env (.conditional test yes no) store outcome (said ++ more) after := by
  refine of_succ ?_
  simp only [evaluate_conditional]
  refine first.bind (rising_evaluate channel test env) (fun v => ?_) ?_
  · cases v.isTrue with
    | true => exact rising_evaluate channel yes env
    | false => exact rising_evaluate channel no env
  · cases holds : v.isTrue with
    | true => rwa [holds] at second
    | false => rwa [holds] at second

theorem apply {callee : Expr} {args : List Expr} (first : Reached channel env callee store (.success v) said mid)
    (second : Reaches channel (fun levels => v.call channel levels (evaluateEach channel levels args env)) mid outcome
      more after) : Reached channel env (.apply callee args) store outcome (said ++ more) after := by
  refine of_succ ?_
  simp only [evaluate_apply]
  exact first.bind (rising_evaluate channel callee env) (rising_arguments channel args env) second

theorem notCallable {callee : Expr} {args : List Expr}
    (first : Reached channel env callee store (.success v) said after) (other : ∀ c, v ≠ .closure c) :
    Reached channel env (.apply callee args) store (.failure (.notCallable v)) said after := by
  have refused : Reaches channel (fun levels => v.call channel levels (evaluateEach channel levels args env)) after
      (.failure (.notCallable v)) [] after := by
    refine .silent trivial fun levels spoken => ?_
    cases v with
    | closure c => exact absurd rfl (other c)
    | _ => rfl
  have whole := first.apply refused
  rwa [List.append_nil] at whole

theorem arguments {callee : Expr} {args : List Expr} {c : Closure} {values : List Value} {mid : Store}
    (first : Reached channel env callee store (.success (.closure c)) said mid)
    (second : ReachedEach channel env args mid (.success values) more before)
    (called : Reaches channel (fun levels => c.call channel levels values) before outcome rest after) :
    Reached channel env (.apply callee args) store outcome (said ++ (more ++ rest)) after :=
  first.apply (second.bind (rising_evaluateEach channel args env) (fun values => rising_call channel c values) called)

theorem call {c : Closure} {values : List Value} (arity : values.length = c.params.length)
    (body : Reached channel (before.next c.env) c.body (before.push (.ofPairs (c.params.zip values))) outcome rest
      after) :
    Reaches channel (fun levels => c.call channel levels values) before outcome rest after := by
  have counted : values.length = c.arity := arity
  unfold Closure.call
  simp only [if_pos counted]
  exact .extend body

theorem arityMismatch {c : Closure} {values : List Value} (differs : values.length ≠ c.params.length) :
    Reaches channel (fun levels => c.call channel levels values) store
      (.failure (.arityMismatch c.params.length values.length)) [] store := by
  have uncounted : values.length ≠ c.arity := differs
  unfold Closure.call
  simp only [if_neg uncounted]
  exact .silent trivial fun _ _ => rfl

theorem letIn {bindings : List (Text × Expr)} {body : Expr} {values : List Value}
    (first : ReachedEach channel env (bindings.map (·.2)) store (.success values) said mid)
    (second : Reached channel (mid.next env) body (mid.push (.ofPairs ((bindings.map (·.1)).zip values))) outcome more
      after) : Reached channel env (.letIn bindings body) store outcome (said ++ more) after := by
  refine of_succ ?_
  simp only [evaluate_letIn]
  exact first.bind (rising_evaluateEach channel _ env)
    (fun values => (Rising.same _).bind fun inner => rising_evaluate channel body inner) (.extend second)

theorem letRec {lambdas : List (Text × List Text × Expr)} {body : Expr}
    (first : Reached channel (store.next env) body
      (store.push (.ofPairs (Eval.recursivePairs lambdas (store.next env)))) outcome said after) :
    Reached channel env (.letRec (lambdaBindings lambdas) body) store outcome said after := by
  have accepted : lambdasOf (lambdaBindings lambdas) = .ok lambdas := lambdasOf_eq_ok_iff.mpr rfl
  refine of_succ ?_
  simp only [evaluate_letRec, accepted]
  exact .extendRecursive first

theorem cons {es : List Expr} {vs : List Value} (first : Reached channel env e store (.success v) said mid)
    (others : ReachedEach channel env es mid (.success vs) more after) :
    ReachedEach channel env (e :: es) store (.success (v :: vs)) (said ++ more) after := by
  have returns : Reaches channel (fun _ => (pure (v :: vs) : Eval (List Value))) after (.success (v :: vs)) []
      after := .silent trivial fun _ _ => rfl
  have tail := others.bind (rising_evaluateEach channel es env) (fun vs => .same (pure (v :: vs))) returns
  rw [List.append_nil] at tail
  exact first.bind (rising_evaluate channel e env)
    (fun v => (rising_evaluateEach channel es env).bind fun vs => .same (pure (v :: vs))) tail

theorem tail {es : List Expr} (first : Reached channel env e store (.success v) said mid)
    (others : ReachedEach channel env es mid (.failure x) more after) :
    ReachedEach channel env (e :: es) store (.failure x) (said ++ more) after :=
  first.bind (rising_evaluate channel e env)
    (fun v => (rising_evaluateEach channel es env).bind fun vs => .same (pure (v :: vs))) others.stop

theorem sequence {next : Expr} {others : List Expr} (first : Reached channel env e store (.success v) said mid)
    (second : Reached channel env (.sequence next others) mid outcome more after) :
    Reached channel env (.sequence e (next :: others)) store outcome (said ++ more) after := by
  have remaining : Reaches channel (fun levels => Eval.last (fun e => evaluate channel levels e env) next others) mid
      outcome more after := by
    intro taken spoken
    obtain ⟨completed, levels, ends⟩ := second taken spoken
    cases levels with
    | zero =>
      have stopped : Outcome.halted Halt.stackExhausted = outcome := congrArg Prod.fst ends
      rw [← stopped] at completed
      exact completed.elim
    | succ levels => exact ⟨completed, levels, ends⟩
  exact of_succ (first.bind (rising_evaluate channel e env) (fun _ => rising_last channel next others env) remaining)

end Reached

mutual

/-- Whatever the rules derive, evaluation comes to. -/
theorem Derives.reached {channel : Channel} : ∀ {store : Store} {env : Env} {e : Expr} {outcome : Outcome Value}
    {said : List Expr} {after : Store}, Derives store env e outcome said after →
      Reached channel env e store outcome said after
  | _, _, _, _, _, _, .literal => .of_silent trivial fun _ _ => rfl
  | _, env, _, _, _, _, .var bound =>
    .of_silent trivial fun levels _ => evaluate_var_of_lookup channel levels env (Store.lookup_eq_some_iff.mpr bound)
  | _, _, _, _, _, _, .unbound lacks => .of_silent trivial fun levels spoken => by
    rw [evaluate_var, Eval.lookup_apply, Store.lookup_eq_none_iff.mpr lacks]
  | _, _, _, _, _, _, .unknownBinary unknown => .of_silent trivial fun levels spoken => by
    rw [evaluate_binary, BinaryOperator.ofGlyph?_eq_none_iff.mpr unknown]
    rfl
  | _, _, _, _, _, _, .binary first second result => .binary first.reached second.reached result
  | _, _, _, _, _, _, .binaryLeft first => .binaryLeft first.reached
  | _, _, _, _, _, _, .binaryRight first second => .binaryRight first.reached second.reached
  | _, _, _, _, _, _, .unknownUnary unknown => .of_silent trivial fun levels spoken => by
    rw [evaluate_unary, UnaryOperator.ofGlyph?_eq_none_iff.mpr unknown]
    rfl
  | _, _, _, _, _, _, .say => .say
  | _, _, _, _, _, _, .not part => .unary (fun _ => rfl) part.reached
  | _, _, _, _, _, _, .isZero part => .unary (fun _ => rfl) part.reached
  | _, _, _, _, _, _, .unaryOperand evaluated part => .unaryOperand evaluated part.reached
  | _, _, _, _, _, _, .yes first second => .conditional first.reached second.reached
  | _, _, _, _, _, _, .no first other second => .conditional first.reached (by
    rw [if_neg fun holds => other (Value.isTrue_iff.mp holds)]
    exact second.reached)
  | _, _, _, _, _, _, .test first => .of_succ first.reached.stop
  | _, _, _, _, _, _, .lambda => .of_silent trivial fun _ _ => rfl
  | _, _, _, _, _, _, .callee first => .of_succ first.reached.stop
  | _, _, _, _, _, _, .notCallable first other => .notCallable first.reached other
  | _, _, _, _, _, _, .argument first second => .apply first.reached second.reached.stop
  | _, _, _, _, _, _, .arityMismatch first second differs => by
    have refused := Reached.arguments first.reached second.reached (@Reached.arityMismatch channel _ _ _ differs)
    rwa [List.append_nil] at refused
  | _, _, _, _, _, _, .call first second arity third =>
    .arguments first.reached second.reached (Reached.call arity third.reached)
  | _, _, _, _, _, _, .letIn first second => .letIn first.reached second.reached
  | _, _, _, _, _, _, .bound first => .of_succ first.reached.stop
  | _, _, _, _, _, _, .notAFunction other => .of_silent trivial fun levels spoken => by
    rw [evaluate_letRec, lambdasOf_eq_error_iff.mpr ⟨_, _, _, rfl, other⟩]
    rfl
  | _, _, _, _, _, _, .letRec first => .letRec first.reached
  | _, _, _, _, _, _, .last only => .of_succ only.reached
  | _, _, _, _, _, _, .next first second => .sequence first.reached second.reached
  | _, _, _, _, _, _, .stop first => .of_succ first.reached.stop
  | _, _, _, _, _, _, .fix rewritten => .of_succ rewritten.reached

theorem DerivesEach.reached {channel : Channel} : ∀ {store : Store} {env : Env} {es : List Expr}
    {outcome : Outcome (List Value)} {said : List Expr} {after : Store}, DerivesEach store env es outcome said after →
      ReachedEach channel env es store outcome said after
  | _, _, _, _, _, _, .nil => .silent trivial fun _ _ => rfl
  | _, _, _, _, _, _, .cons first others => Reached.cons first.reached others.reached
  | _, _, _, _, _, _, .head first => first.reached.stop
  | _, _, _, _, _, _, .tail first others => Reached.tail first.reached others.reached

end

/-! ## Adequacy -/

/-- The rules derive at most one outcome, one list of what is said and one store. -/
theorem Derives.unique {store : Store} {env : Env} {e : Expr} {outcome other : Outcome Value} {said more : List Expr}
    {after last : Store} (derives : Derives store env e outcome said after)
    (again : Derives store env e other more last) : outcome = other ∧ said = more ∧ after = last := by
  have all (said : List Expr) : ∀ x ∈ said, Channel.silence.Takes x := fun _ _ => ⟨0, rfl⟩
  have settles := derives.reached (all said) #[]
  obtain ⟨rfl, same⟩ := settles.unique (rising_evaluate .silence e env) (again.reached (all more) #[])
  exact ⟨rfl, by simpa using congrArg Progress.said same, congrArg Progress.store same⟩

/-- Evaluation is sound and complete for the rules of the language. Whatever the channel, the environment and what
    went before, some budget takes an expression to an outcome if and only if the rules derive that outcome, and
    then what is said, in order, and the store left behind are what the rules say; only the console can fail to
    take what is said. No expression has two outcomes. -/
theorem settles_iff_derives (channel : Channel) (e : Expr) (env : Env) :
    (∀ (before after : Progress) (outcome : Outcome Value),
      Settles (fun levels => evaluate channel levels e env) before outcome after ↔
        ∃ said, Derives before.store env e outcome said after.store ∧ after.said = before.said ++ said.toArray ∧
          ∀ x ∈ said, channel.Takes x) ∧
    ∀ (store : Store) (outcome other : Outcome Value) (said more : List Expr) (after last : Store),
      Derives store env e outcome said after → Derives store env e other more last →
        outcome = other ∧ said = more ∧ after = last := by
  refine ⟨fun before after outcome => ⟨?_, ?_⟩, fun _ _ _ _ _ _ _ derives again => derives.unique again⟩
  · rintro ⟨completed, levels, ends⟩
    have run : evaluate channel levels e env before = (outcome, after) := ends
    have follows := evaluate_follows channel levels e env before
    rw [run] at follows
    exact follows completed
  · rintro ⟨said, derives, told, taken⟩
    have reached := derives.reached taken before.said
    rwa [← told] at reached

end CallByValue
