import CallByValue.Proofs.Forms

/-!
# Guarantees

What an evaluation promises about the progress it makes: it keeps an invariant,
leaves older frames alone, and ends in a good value or in a permitted failure.
One rule for each way of putting evaluations together.
-/

namespace CallByValue

namespace Outcome

/-- A good value or a permitted failure. Nothing is asked of an evaluation that the host stops. -/
def Satisfies {α : Type} (good : α → Prop) (permitted : Failure → Prop) : Outcome α → Prop
  | success a => good a
  | failure e => permitted e
  | halted _ => True

end Outcome

/-- An operator yields an atom, and fails only over its operands. -/
theorem BinaryOperator.apply_satisfies (op : BinaryOperator) (mark levels : Nat) (a b : Value) {good : Value → Prop}
    {permitted : Failure → Prop} (atom : ∀ a, good (.atom a)) (division : permitted .divisionByZero)
    (operand : ∀ v, permitted (.notANumber op.glyph v)) (overflow : permitted (.overflow op.glyph)) :
    (op.apply mark levels a b).Satisfies good permitted := by
  unfold BinaryOperator.apply
  split
  · split
    · exact atom _
    · trivial
  · split
    · exact operand _
    · exact operand _
    · split
      · exact atom _
      · exact division
      · exact overflow

namespace Eval

variable {α β : Type} {inv : Progress → Prop} {permitted : Failure → Prop} {since : Progress}

/-- From whatever progress is made since some point, as long as the invariant holds. -/
def Ensures (inv : Progress → Prop) (permitted : Failure → Prop) (since : Progress) (m : Eval α)
    (good : Progress → α → Prop) : Prop :=
  ∀ before, since.LeadsTo before → inv before →
    before.LeadsTo (m before).2 ∧ inv (m before).2 ∧ (m before).1.Satisfies (good (m before).2) permitted

/-- What is good once stays good as progress is made. -/
def Lasting (good : Progress → α → Prop) : Prop :=
  ∀ ⦃now after : Progress⦄, now.LeadsTo after → ∀ a, good now a → good after a

namespace Ensures

theorem later {m : Eval α} {good : Progress → α → Prop} (ensures : Ensures inv permitted since m good)
    {now : Progress} (lead : since.LeadsTo now) : Ensures inv permitted now m good :=
  fun before further holds => ensures before (lead.trans further) holds

theorem pure {a : α} {good : Progress → α → Prop} (holds : ∀ after, since.LeadsTo after → good after a) :
    Ensures inv permitted since (Pure.pure a) good :=
  fun before lead kept => ⟨.refl before, kept, holds before lead⟩

theorem failure {e : Failure} {good : Progress → α → Prop} (allowed : permitted e) :
    Ensures inv permitted since (.ended (.failure e)) good :=
  fun before _ kept => ⟨.refl before, kept, allowed⟩

theorem halted {h : Halt} {good : Progress → α → Prop} :
    Ensures inv permitted since (.ended (.halted h)) good :=
  fun before _ kept => ⟨.refl before, kept, trivial⟩

/-- What the first part promises is what the rest may rely on. -/
theorem bind {m : Eval α} {rest : α → Eval β} {good : Progress → α → Prop} {better : Progress → β → Prop}
    (first : Ensures inv permitted since m good)
    (next : ∀ now a, since.LeadsTo now → good now a → Ensures inv permitted now (rest a) better) :
    Ensures inv permitted since (m >>= rest) better := by
  intro before lead holds
  obtain ⟨grows, kept, satisfied⟩ := first before lead holds
  cases run : m before with
  | mk outcome now =>
    rw [run] at grows kept satisfied
    cases outcome with
    | success a =>
      rw [bind_of_success run]
      obtain ⟨further, stillKept, answered⟩ := next now a (lead.trans grows) satisfied now (.refl now) kept
      exact ⟨grows.trans further, stillKept, answered⟩
    | failure e => rw [bind_of_failure run]; exact ⟨grows, kept, satisfied⟩
    | halted h => rw [bind_of_halted run]; exact ⟨grows, kept, trivial⟩

theorem each {f : Expr → Eval Value} {good : Progress → Value → Prop} (lasting : Lasting good) {es : List Expr}
    (all : ∀ e ∈ es, Ensures inv permitted since (f e) good) :
    Ensures inv permitted since (Eval.each f es)
      (fun after values => values.length = es.length ∧ ∀ v ∈ values, good after v) := by
  induction es with
  | nil => exact .pure fun _ _ => ⟨rfl, by simp⟩
  | cons e es ih =>
    have others := ih fun other member => all other (List.mem_cons_of_mem _ member)
    refine .bind (all e List.mem_cons_self) fun now v lead vGood => ?_
    refine .bind (others.later lead) fun last values further valuesGood => ?_
    refine .pure fun after ending => ⟨by simp [valuesGood.1], ?_⟩
    intro w member
    rcases List.mem_cons.mp member with rfl | member
    · exact lasting (further.trans ending) w vGood
    · exact lasting ending w (valuesGood.2 w member)

theorem last {f : Expr → Eval Value} {good : Progress → Value → Prop} {e : Expr} {es : List Expr}
    (first : Ensures inv permitted since (f e) good) (others : ∀ e ∈ es, Ensures inv permitted since (f e) good) :
    Ensures inv permitted since (Eval.last f e es) good := by
  induction es generalizing e with
  | nil => exact first
  | cons next rest ih =>
    have tail := ih (others next List.mem_cons_self) fun other member => others other (List.mem_cons_of_mem _ member)
    exact .bind first fun now _ lead _ => tail.later lead

theorem extend {env : Env} {pairs : List (Text × Value)} {good : Progress → Env → Prop}
    (allowed : ∀ before, since.LeadsTo before → inv before →
      inv (before.push (.ofPairs pairs)) ∧ good (before.push (.ofPairs pairs)) (before.store.next env)) :
    Ensures inv permitted since (Eval.extend env pairs) good := by
  intro before lead kept
  obtain ⟨stillKept, answered⟩ := allowed before lead kept
  exact ⟨before.leadsTo_push _, stillKept, answered⟩

theorem extendRecursive {env : Env} {lambdas : List (Text × List Text × Expr)} {good : Progress → Env → Prop}
    (allowed : ∀ before, since.LeadsTo before → inv before →
      inv (before.push (.ofPairs (recursivePairs lambdas (before.store.next env)))) ∧
        good (before.push (.ofPairs (recursivePairs lambdas (before.store.next env)))) (before.store.next env)) :
    Ensures inv permitted since (Eval.extendRecursive env lambdas) good := by
  intro before lead kept
  obtain ⟨stillKept, answered⟩ := allowed before lead kept
  exact ⟨before.leadsTo_push _, stillKept, answered⟩

/-- An operator leaves everything alone but the next mark. -/
theorem operate {op : BinaryOperator} {levels : Nat} {a b : Value} {good : Progress → Value → Prop}
    (allowed : ∀ before, since.LeadsTo before → inv before →
      inv before.tick ∧ (op.apply before.store.nextMark levels a b).Satisfies (good before.tick) permitted) :
    Ensures inv permitted since (Eval.operate op levels a b) good := by
  intro before lead kept
  obtain ⟨stillKept, answered⟩ := allowed before lead kept
  exact ⟨before.leadsTo_tick, stillKept, answered⟩

/-- The channel is told the expression unless it refuses. -/
theorem say {channel : Channel} {levels : Nat} {e : Expr} {good : Progress → Value → Prop}
    (allowed : ∀ before, since.LeadsTo before → inv before → inv (before.tell e) ∧ good (before.tell e) (.quoted e)) :
    Ensures inv permitted since (Eval.say channel levels e) good := by
  intro before lead kept
  rw [Eval.say_apply]
  cases channel.obstacle? levels e with
  | some h => exact ⟨.refl before, kept, trivial⟩
  | none => exact ⟨before.leadsTo_tell e, allowed before lead kept⟩

end Ensures

end Eval

end CallByValue
