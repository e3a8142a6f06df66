import CallByValue.Proofs.Forms
import CallByValue.Proofs.Writing

/-!
# Budgets

The levels that an evaluation is granted only decide whether it completes, and a
channel only whether what is said can be written. A run that completes is the same
run under every larger budget and through every channel that takes as much; one
that is cut short has said the beginning of what the other says. So what a program
comes to can be told without a budget.
-/

namespace CallByValue

/-! ## Writing and comparing -/

theorem Channel.obstacle?_mono (channel : Channel) {levels more : Nat} (le : levels ≤ more) {e : Expr}
    (taken : channel.obstacle? levels e = none) : channel.obstacle? more e = none := by
  cases channel with
  | console => exact Expr.obstacle?_mono le taken
  | _ => rfl

/-- The second channel takes whatever the first one takes: only the console refuses anything. -/
def Channel.Narrower (narrow wide : Channel) : Prop := wide = .console → narrow = .console

theorem Channel.Narrower.obstacle?_eq_none {narrow wide : Channel} (narrower : narrow.Narrower wide) {levels more : Nat}
    (le : levels ≤ more) {e : Expr} (taken : narrow.obstacle? levels e = none) : wide.obstacle? more e = none := by
  cases wide with
  | console =>
    obtain rfl := narrower rfl
    exact Channel.obstacle?_mono .console le taken
  | _ => rfl

theorem BinaryOperator.canCompare_mono {levels more : Nat} (le : levels ≤ more) {a b : Value}
    (granted : canCompare levels a b = true) : canCompare more a b = true := by
  have enough := of_decide_eq_true granted
  exact decide_eq_true (by omega)

/-! ## Evaluating -/

/-- A value or a failure, not a stop by the host. -/
def Outcome.Completed {α : Type} : Outcome α → Prop
  | .halted _ => False
  | _ => True

instance {α : Type} (outcome : Outcome α) : Decidable outcome.Completed :=
  match outcome with
  | .success _ => .isTrue trivial
  | .failure _ => .isTrue trivial
  | .halted _ => .isFalse id

namespace Eval

variable {α β : Type}

/-- Every run that the first completes is a run of the second. -/
def Below (m m' : Eval α) : Prop := ∀ before, (m before).1.Completed → m' before = m before

theorem Below.refl (m : Eval α) : m.Below m := fun _ _ => rfl

theorem completed_of_bind {m : Eval α} {rest : α → Eval β} {before : Progress}
    (completed : ((m >>= rest) before).1.Completed) : (m before).1.Completed := by
  cases run : m before with
  | mk outcome after =>
    cases outcome with
    | halted h => rw [bind_of_halted run] at completed; exact completed
    | _ => trivial

theorem Below.bind {m m' : Eval α} {rest rest' : α → Eval β} (first : m.Below m')
    (next : ∀ a, (rest a).Below (rest' a)) : (m >>= rest).Below (m' >>= rest') := by
  intro before completed
  have same := first before (completed_of_bind completed)
  cases run : m before with
  | mk outcome after =>
    rw [run] at same
    cases outcome with
    | success a =>
      rw [bind_of_success run] at completed ⊢
      rw [bind_of_success same]
      exact next a after completed
    | failure e => rw [bind_of_failure run, bind_of_failure same]
    | halted h => rw [bind_of_halted run, bind_of_halted same]

theorem Below.each {f f' : Expr → Eval Value} (all : ∀ e, (f e).Below (f' e)) (es : List Expr) :
    (Eval.each f es).Below (Eval.each f' es) := by
  induction es with
  | nil => exact .refl _
  | cons e es ih => exact .bind (all e) fun _ => .bind ih fun _ => .refl _

theorem Below.last {f f' : Expr → Eval Value} (all : ∀ e, (f e).Below (f' e)) (e : Expr) (es : List Expr) :
    (Eval.last f e es).Below (Eval.last f' e es) := by
  induction es generalizing e with
  | nil => exact all e
  | cons next rest ih => exact .bind (all e) fun _ => ih next

/-! ### Runs that stay behind others -/

/-- From one store the first run stays behind the second, whatever either had said before: each adds to that, the
    first the beginning of what the second adds, all of it allowed. If the first completes, both end alike. -/
structure Trail (allowed : Expr → Prop) (spoken spoken' : Array Expr) (run run' : Outcome α × Progress)
    (said said' : List Expr) : Prop where
  left : run.2.said = spoken ++ said.toArray
  right : run'.2.said = spoken' ++ said'.toArray
  behind : said <+: said'
  allows : ∀ x ∈ said, allowed x
  same : run.1.Completed → run'.1 = run.1 ∧ run'.2.store = run.2.store ∧ said' = said

/-- An evaluation says nothing and asks only for the store. -/
def Silent (m : Eval α) (run : Store → Outcome α × Store) : Prop :=
  ∀ now, m now = ((run now.store).1, ⟨(run now.store).2, now.said⟩)

/-- The first evaluation stays behind the second from every store. -/
def Trails (allowed : Expr → Prop) (m m' : Eval α) : Prop :=
  ∀ store spoken spoken', ∃ said said',
    Trail allowed spoken spoken' (m ⟨store, spoken⟩) (m' ⟨store, spoken'⟩) said said'

namespace Trails

variable {allowed : Expr → Prop} {m m' : Eval α} {rest rest' : α → Eval β}

theorem below (trails : m.Trails allowed m') : m.Below m' := by
  intro before completed
  obtain ⟨said, said', trail⟩ := trails before.store before.said before.said
  obtain ⟨outcome, store, rfl⟩ := trail.same completed
  have spoken : (m' before).2.said = (m before).2.said := trail.right.trans trail.left.symm
  have progress : (m' before).2 = (m before).2 := by
    cases run : (m before).2
    cases run' : (m' before).2
    simp_all
  exact Prod.ext outcome progress

theorem imp {weaker : Expr → Prop} (trails : m.Trails allowed m') (implies : ∀ x, allowed x → weaker x) :
    m.Trails weaker m' := by
  intro store spoken spoken'
  obtain ⟨said, said', trail⟩ := trails store spoken spoken'
  exact ⟨said, said', trail.left, trail.right, trail.behind, fun x member => implies x (trail.allows x member),
    trail.same⟩

/-- What says nothing, and comes to the same in both runs if the first completes. -/
theorem silent {run run' : Store → Outcome α × Store} (first : m.Silent run) (second : m'.Silent run')
    (same : ∀ store, (run store).1.Completed → run' store = run store) : m.Trails allowed m' := by
  intro store spoken spoken'
  rw [first, second]
  refine ⟨[], [], by simp, by simp, List.prefix_rfl, by simp, fun completed => ?_⟩
  rw [same store completed]
  exact ⟨rfl, rfl, rfl⟩

theorem of_silent (run : Store → Outcome α × Store) (silent : m.Silent run) : m.Trails allowed m :=
  .silent silent silent fun _ _ => rfl

theorem pure (a : α) : (Pure.pure a : Eval α).Trails allowed (Pure.pure a) :=
  of_silent (fun store => (.success a, store)) fun _ => rfl

theorem ended (outcome : Outcome α) : (Eval.ended outcome).Trails allowed (.ended outcome) :=
  of_silent (fun store => (outcome, store)) fun _ => rfl

theorem bind (first : m.Trails allowed m') (next : ∀ a, (rest a).Trails allowed (rest' a)) :
    (m >>= rest).Trails allowed (m' >>= rest') := by
  intro store spoken spoken'
  obtain ⟨said, said', left, right, behind, allows, same⟩ := first store spoken spoken'
  rw [bind_apply, bind_apply]
  generalize m ⟨store, spoken⟩ = run at left same ⊢
  generalize m' ⟨store, spoken'⟩ = run' at right same ⊢
  obtain ⟨outcome, now, heard⟩ := run
  obtain ⟨outcome', now', heard'⟩ := run'
  obtain rfl : heard = spoken ++ said.toArray := left
  obtain rfl : heard' = spoken' ++ said'.toArray := right
  cases outcome with
  | success a =>
    obtain ⟨alike, kept, rfl⟩ := same trivial
    obtain rfl : outcome' = .success a := alike
    obtain rfl : now' = now := kept
    obtain ⟨more, more', further⟩ := next a now' (spoken ++ said'.toArray) (spoken' ++ said'.toArray)
    refine ⟨said' ++ more, said' ++ more', ?_, ?_, ?_, ?_, fun completed => ?_⟩
    · simpa using further.left
    · simpa using further.right
    · exact (List.prefix_append_right_inj said').mpr further.behind
    · exact List.forall_mem_append.mpr ⟨allows, further.allows⟩
    · obtain ⟨outcome, store, rfl⟩ := further.same completed
      exact ⟨outcome, store, rfl⟩
  | failure e =>
    obtain ⟨alike, kept, rfl⟩ := same trivial
    obtain rfl : outcome' = .failure e := alike
    obtain rfl : now' = now := kept
    exact ⟨said', said', rfl, rfl, behind, allows, fun _ => ⟨rfl, rfl, rfl⟩⟩
  | halted h =>
    -- The first run is over; the second may go on and say more.
    cases outcome' with
    | success a =>
      obtain ⟨_, more', further⟩ := next a now' spoken (spoken' ++ said'.toArray)
      refine ⟨said, said' ++ more', rfl, ?_, behind.trans (List.prefix_append ..), allows, fun none => none.elim⟩
      simpa using further.right
    | failure e => exact ⟨said, said', rfl, rfl, behind, allows, fun none => none.elim⟩
    | halted h' => exact ⟨said, said', rfl, rfl, behind, allows, fun none => none.elim⟩

theorem each {f f' : Expr → Eval Value} (all : ∀ e, (f e).Trails allowed (f' e)) (es : List Expr) :
    (Eval.each f es).Trails allowed (Eval.each f' es) := by
  induction es with
  | nil => exact .pure []
  | cons e es ih => exact .bind (all e) fun _ => .bind ih fun _ => .pure _

theorem last {f f' : Expr → Eval Value} (all : ∀ e, (f e).Trails allowed (f' e)) (e : Expr) (es : List Expr) :
    (Eval.last f e es).Trails allowed (Eval.last f' e es) := by
  induction es generalizing e with
  | nil => exact all e
  | cons next rest ih => exact .bind (all e) fun _ => ih next

theorem lookup (name : Text) (env : Env) : (Eval.lookup name env).Trails allowed (Eval.lookup name env) := by
  let found (store : Store) : Outcome Value × Store :=
    ((store.lookup name env).elim (.failure (.unbound name)) .success, store)
  have silent : (Eval.lookup name env).Silent found := by
    intro now
    rw [lookup_apply]
    simp only [found]
    cases now.store.lookup name env <;> rfl
  exact of_silent found silent

theorem extend (env : Env) (pairs : List (Text × Value)) :
    (Eval.extend env pairs).Trails allowed (Eval.extend env pairs) :=
  of_silent (fun store => (.success (store.next env), store.push (.ofPairs pairs))) fun _ => rfl

theorem extendRecursive (env : Env) (lambdas : List (Text × List Text × Expr)) :
    (Eval.extendRecursive env lambdas).Trails allowed (Eval.extendRecursive env lambdas) :=
  of_silent (fun store => (.success (store.next env), store.push (.ofPairs (recursivePairs lambdas (store.next env)))))
    fun _ => rfl

/-- A larger budget only lets an operator look deeper into what it compares. -/
theorem operate (op : BinaryOperator) {levels more : Nat} (le : levels ≤ more) (a b : Value) :
    (Eval.operate op levels a b).Trails allowed (Eval.operate op more a b) := by
  let applied (levels : Nat) (store : Store) : Outcome Value × Store :=
    (op.apply store.nextMark levels a b, { store with nextMark := store.nextMark + 1 })
  have silent : ∀ levels, (Eval.operate op levels a b).Silent (applied levels) := fun _ _ => rfl
  refine .silent (silent levels) (silent more) fun store completed => ?_
  have same : op.apply store.nextMark more a b = op.apply store.nextMark levels a b := by
    change (op.apply store.nextMark levels a b).Completed at completed
    unfold BinaryOperator.apply at completed ⊢
    cases arithmetic : op.arithmetic? store.nextMark with
    | some f => rfl
    | none =>
      simp only [arithmetic] at completed ⊢
      cases granted : BinaryOperator.canCompare levels a b with
      | true => rw [BinaryOperator.canCompare_mono le granted]
      | false => simp [granted, Outcome.Completed] at completed
  exact Prod.ext same rfl

theorem say {narrow wide : Channel} (narrower : narrow.Narrower wide) {levels more : Nat} (le : levels ≤ more)
    (e : Expr) :
    (Eval.say narrow levels e).Trails (fun x => narrow.obstacle? levels x = none) (Eval.say wide more e) := by
  intro store spoken spoken'
  rw [say_apply, say_apply]
  cases taken : narrow.obstacle? levels e with
  | none =>
    rw [narrower.obstacle?_eq_none le taken]
    exact ⟨[e], [e], by simp [Progress.tell], by simp [Progress.tell], List.prefix_rfl, by simpa using taken,
      fun _ => ⟨rfl, rfl, rfl⟩⟩
  | some h =>
    cases wide.obstacle? more e with
    | none =>
      exact ⟨[], [e], by simp, by simp [Progress.tell], List.nil_prefix, by simp, fun completed => completed.elim⟩
    | some h' => exact ⟨[], [], by simp, by simp, List.prefix_rfl, by simp, fun completed => completed.elim⟩

end Trails

end Eval

section
variable {narrow wide : Channel} {levels more : Nat} {allowed : Expr → Prop}

/-- If all expressions stay behind with so many levels, they do with one level more on either side. -/
theorem trails_step (le : levels ≤ more)
    (ih : ∀ e env, (evaluate narrow levels e env).Trails allowed (evaluate wide more e env))
    (say : ∀ e, (Eval.say narrow levels e).Trails allowed (Eval.say wide more e)) (e : Expr) (env : Env) :
    (evaluate narrow (levels + 1) e env).Trails allowed (evaluate wide (more + 1) e env) := by
  have each : ∀ es, (evaluateEach narrow levels es env).Trails allowed (evaluateEach wide more es env) :=
    fun es => .each (fun e => ih e env) es
  cases e with
  | literal a => exact .pure _
  | var name => exact .lookup name env
  | binary glyph left right =>
    rw [evaluate_binary, evaluate_binary]
    cases BinaryOperator.ofGlyph? glyph with
    | none => exact .ended _
    | some op => exact .bind (ih _ _) fun a => .bind (ih _ _) fun b => .operate op le a b
  | unary glyph operand =>
    rw [evaluate_unary, evaluate_unary]
    cases UnaryOperator.ofGlyph? glyph with
    | none => exact .ended _
    | some op =>
      cases op with
      | say => exact say operand
      | not => exact .bind (ih _ _) fun _ => .pure _
      | isZero => exact .bind (ih _ _) fun _ => .pure _
  | conditional test yes no =>
    rw [evaluate_conditional, evaluate_conditional]
    refine .bind (ih _ _) fun v => ?_
    cases v.isTrue with
    | true => exact ih yes env
    | false => exact ih no env
  | lambda params body => exact .pure _
  | apply callee args =>
    rw [evaluate_apply, evaluate_apply]
    refine .bind (ih _ _) fun v => ?_
    cases v with
    | closure c =>
      refine .bind (each args) fun values => ?_
      unfold Closure.call
      split
      · exact .bind (.extend _ _) fun inner => ih c.body inner
      · exact .ended _
    | _ => exact .ended _
  | letIn bindings body =>
    rw [evaluate_letIn, evaluate_letIn]
    exact .bind (each _) fun _ => .bind (.extend _ _) fun inner => ih body inner
  | letRec bindings body =>
    rw [evaluate_letRec, evaluate_letRec]
    cases lambdasOf bindings with
    | error name => exact .ended _
    | ok lambdas => exact .bind (.extendRecursive _ _) fun inner => ih body inner
  | sequence first rest =>
    rw [evaluate_sequence, evaluate_sequence]
    exact .last (fun e => ih e env) first rest
  | fix functional =>
    rw [evaluate_fix, evaluate_fix]
    exact ih _ env

/-- Evaluation only adds to what was said before, and does not depend on it. -/
theorem evaluate_tells (channel : Channel) (levels : Nat) (e : Expr) (env : Env) :
    (evaluate channel levels e env).Trails (fun _ => True) (evaluate channel levels e env) := by
  induction levels generalizing e env with
  | zero => exact .ended _
  | succ levels ih =>
    have say : ∀ e, (Eval.say channel levels e).Trails (fun _ => True) (Eval.say channel levels e) :=
      fun e => (Eval.Trails.say id (Nat.le_refl levels) e).imp fun _ _ => trivial
    exact trails_step (Nat.le_refl levels) ih say e env

/-- Under a smaller budget, through a channel that takes less, evaluation stays behind. -/
theorem evaluate_trails (narrower : narrow.Narrower wide) (le : levels ≤ more) (e : Expr) (env : Env) :
    (evaluate narrow levels e env).Trails (fun x => narrow.obstacle? levels x = none) (evaluate wide more e env) := by
  induction levels generalizing more e env with
  | zero =>
    intro store spoken spoken'
    obtain ⟨_, said', trail⟩ := evaluate_tells wide more e env store spoken spoken'
    exact ⟨[], said', by simp [evaluate_zero, Eval.ended], trail.right, List.nil_prefix, by simp,
      fun completed => completed.elim⟩
  | succ levels ih =>
    obtain ⟨more, rfl⟩ : ∃ fewer, more = fewer + 1 := ⟨more - 1, by omega⟩
    have fewer : levels ≤ more := Nat.le_of_succ_le_succ le
    have taken : ∀ x, narrow.obstacle? levels x = none → narrow.obstacle? (levels + 1) x = none :=
      fun _ none => narrow.obstacle?_mono (Nat.le_succ levels) none
    exact trails_step fewer (fun e env => (ih fewer e env).imp taken)
      (fun e => (Eval.Trails.say narrower fewer e).imp taken) e env

end

theorem Eval.Below.operate (op : BinaryOperator) {levels more : Nat} (le : levels ≤ more) (a b : Value) :
    (Eval.operate op levels a b).Below (Eval.operate op more a b) := by
  have trails : (Eval.operate op levels a b).Trails (fun _ => True) (Eval.operate op more a b) := .operate op le a b
  exact trails.below

/-- A larger budget changes no run that completes. -/
theorem evaluate_below (channel : Channel) {levels more : Nat} (le : levels ≤ more) (e : Expr) (env : Env) :
    (evaluate channel levels e env).Below (evaluate channel more e env) :=
  (evaluate_trails id le e env).below

theorem Closure.call_below (channel : Channel) {levels more : Nat} (le : levels ≤ more) (c : Closure)
    (values : List Value) : (c.call channel levels values).Below (c.call channel more values) := by
  unfold Closure.call
  split
  · exact .bind (.refl _) fun inner => evaluate_below channel le c.body inner
  · exact .refl _

theorem Value.call_below (channel : Channel) {levels more : Nat} (le : levels ≤ more) (arguments : Eval (List Value))
    (u : Value) : (u.call channel levels arguments).Below (u.call channel more arguments) := by
  cases u with
  | closure c => exact .bind (.refl _) fun values => c.call_below channel le values
  | _ => exact .refl _

/-! ## Without a budget -/

/-- Some budget lets a run complete, and this is how it ends. -/
def Settles {α : Type} (run : Nat → Eval α) (before : Progress) (outcome : Outcome α) (after : Progress) : Prop :=
  outcome.Completed ∧ ∃ levels, run levels before = (outcome, after)

/-- A larger budget changes no run of these that completes. -/
def Rising {α : Type} (run : Nat → Eval α) : Prop :=
  ∀ ⦃levels more : Nat⦄, levels ≤ more → (run levels).Below (run more)

theorem rising_evaluate (channel : Channel) (e : Expr) (env : Env) :
    Rising fun levels => evaluate channel levels e env :=
  fun _ _ le => evaluate_below channel le e env

theorem rising_call (channel : Channel) (c : Closure) (values : List Value) :
    Rising fun levels => c.call channel levels values :=
  fun _ _ le => c.call_below channel le values

namespace Settles

variable {α : Type} {run : Nat → Eval α} {before after : Progress} {outcome : Outcome α}

/-- What settles does so under budgets as large as one likes. -/
theorem above (settles : Settles run before outcome after) (rising : Rising run) (least : Nat) :
    ∃ levels, least ≤ levels ∧ run levels before = (outcome, after) := by
  obtain ⟨completed, levels, ends⟩ := settles
  refine ⟨levels + least, Nat.le_add_left least levels, ?_⟩
  have same := rising (Nat.le_add_right levels least) before (by rw [ends]; exact completed)
  rw [same, ends]

theorem unique (settles : Settles run before outcome after) (rising : Rising run) {other : Outcome α} {last : Progress}
    (again : Settles run before other last) : outcome = other ∧ after = last := by
  obtain ⟨completed, levels, ends⟩ := settles
  obtain ⟨more, le, ends'⟩ := again.above rising levels
  have same := rising le before (by rw [ends]; exact completed)
  rw [ends, ends'] at same
  exact ⟨(Prod.mk.inj same).1.symm, (Prod.mk.inj same).2.symm⟩

end Settles

end CallByValue
