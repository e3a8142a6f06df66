import CallByValue.Proofs.Budgets
import CallByValue.Proofs.Likeness
import CallByValue.Proofs.Names
import Mathlib.Data.List.Forall2

/-!
# Corresponding runs

Two evaluations of one expression, side by side. Each makes frames of its own,
so what they have in common is told by pairs of environments that stand for each
other, one from each run: such a pair gives the names of some scope corresponding
values, and no environment of one run stands for two of the other.
-/

namespace CallByValue

namespace Table

variable {α β : Type} {related : α → β → Prop}

theorem foldl_insert_rel {pairs : List (Text × α)} {others : List (Text × β)}
    (corresponds : List.Forall₂ (fun p q => p.1 = q.1 ∧ related p.2 q.2) pairs others) :
    ∀ {table : Table α} {other : Table β}, (∀ x, Option.Rel related (table.find? x) (other.find? x)) →
      ∀ x, Option.Rel related ((pairs.foldl (fun table pair => table.insert pair.1 pair.2) table).find? x)
        ((others.foldl (fun table pair => table.insert pair.1 pair.2) other).find? x) := by
  induction corresponds with
  | nil => exact fun tables => tables
  | @cons p q ps qs head tail ih =>
    intro table other tables
    refine ih fun x => ?_
    rw [find?_insert, find?_insert, head.1]
    split
    · exact .some head.2
    · exact tables x

theorem find?_ofPairs_rel {pairs : List (Text × α)} {others : List (Text × β)}
    (corresponds : List.Forall₂ (fun p q => p.1 = q.1 ∧ related p.2 q.2) pairs others) (x : Text) :
    Option.Rel related ((ofPairs pairs).find? x) ((ofPairs others).find? x) :=
  foldl_insert_rel corresponds (fun _ => .none) x

theorem pairs_zip (names : List Text) {as : List α} {bs : List β} (corresponds : List.Forall₂ related as bs) :
    List.Forall₂ (fun p q => p.1 = q.1 ∧ related p.2 q.2) (names.zip as) (names.zip bs) := by
  induction names generalizing as bs with
  | nil => exact .nil
  | cons name names ih =>
    cases corresponds with
    | nil => exact .nil
    | cons head tail => exact .cons ⟨rfl, head⟩ (ih tail)

end Table

/-- Of related outcomes both complete or neither does. -/
theorem Outcome.Rel.completed_iff {α β : Type} {related : α → β → Prop} {blamed : Failure → Failure → Prop}
    {o : Outcome α} {q : Outcome β} (corresponds : o.Rel related blamed q) : o.Completed ↔ q.Completed := by
  cases corresponds <;> exact Iff.rfl

/-- Which environments of two runs stand for each other, and for the names of which scope. -/
abbrev World := Env → Env → Expr.Scope → Prop

/-- Two runs at some point: the environments that stand for each other, and how far either has come. -/
structure Stage where
  world : World
  left : Progress
  right : Progress

namespace Stage

/-- At a later stage both runs have gone on, and environments that stood for each other still do. -/
structure LeadsTo (now later : Stage) : Prop where
  world : ∀ {a b : Env} {scope : Expr.Scope}, now.world a b scope → later.world a b scope
  left : now.left.LeadsTo later.left
  right : now.right.LeadsTo later.right

/-- Closures of one lambda, over environments that stand for each other for its free names. -/
structure Closures (stage : Stage) (c d : Closure) : Prop where
  params : c.params = d.params
  body : c.body = d.body
  captured : ∃ scope, stage.world c.env d.env scope ∧ c.body.Within (scope.bind c.params)

def Values (stage : Stage) : Value → Value → Prop := Value.Rel stage.Closures

def Failures (stage : Stage) : Failure → Failure → Prop := Failure.Rel stage.Values

variable {now after : Stage}

theorem LeadsTo.refl (stage : Stage) : stage.LeadsTo stage := ⟨id, .refl _, .refl _⟩

theorem LeadsTo.trans {last : Stage} (lead : now.LeadsTo after) (more : after.LeadsTo last) : now.LeadsTo last :=
  ⟨fun pair => more.world (lead.world pair), lead.left.trans more.left, lead.right.trans more.right⟩

theorem Closures.later {c d : Closure} (corresponds : now.Closures c d) (lead : now.LeadsTo after) :
    after.Closures c d := by
  obtain ⟨scope, pair, within⟩ := corresponds.captured
  exact ⟨corresponds.params, corresponds.body, scope, lead.world pair, within⟩

theorem Values.later {v w : Value} (corresponds : now.Values v w) (lead : now.LeadsTo after) : after.Values v w :=
  corresponds.imp fun _ _ closures => closures.later lead

theorem Failures.later {e f : Failure} (corresponds : now.Failures e f) (lead : now.LeadsTo after) :
    after.Failures e f :=
  corresponds.imp fun _ _ values => Values.later values lead

theorem Values.alike {v w : Value} (corresponds : now.Values v w) : v.Alike w :=
  corresponds.imp fun _ _ closures => ⟨closures.params, closures.body⟩

theorem Failures.alike {e f : Failure} (corresponds : now.Failures e f) : e.Alike f :=
  corresponds.imp fun _ _ values => Values.alike values

end Stage

/-- What two runs had said before, and which values correspond where a name can only be called. -/
structure Regime where
  saidLeft : List Expr
  saidRight : List Expr
  Callees : Stage → Value → Value → Prop
  callees_later : ∀ {now later : Stage} {v w : Value}, now.LeadsTo later → Callees now v w → Callees later v w

/-- Two environments give the names of a scope corresponding values. -/
structure Agree (regime : Regime) (stage : Stage) (a b : Env) (scope : Expr.Scope) : Prop where
  left : stage.left.store.Made a
  right : stage.right.store.Made b
  plain : ∀ x, scope.plain x →
    Option.Rel stage.Values (stage.left.store.lookup x a) (stage.right.store.lookup x b)
  called : ∀ x, scope.called x →
    ∃ v w, stage.left.store.lookup x a = some v ∧ stage.right.store.lookup x b = some w ∧ regime.Callees stage v w

/-- Environments that stand for each other agree, one to one, and since the beginning both runs have
    said the same. -/
structure InStep (regime : Regime) (stage : Stage) : Prop where
  agree : ∀ {a b : Env} {scope : Expr.Scope}, stage.world a b scope → Agree regime stage a b scope
  paired : ∀ {a b a' b' : Env} {scope scope' : Expr.Scope}, stage.world a b scope → stage.world a' b' scope' →
    (a = a' ↔ b = b')
  said : ∃ since, stage.left.said.toList = regime.saidLeft ++ since ∧
    stage.right.said.toList = regime.saidRight ++ since

theorem Option.Rel.imp {α β : Type} {less more : α → β → Prop} (implies : ∀ a b, less a b → more a b)
    {x : Option α} {y : Option β} (corresponds : Option.Rel less x y) : Option.Rel more x y := by
  cases corresponds with
  | some inner => exact .some (implies _ _ inner)
  | none => exact .none

section
variable {regime : Regime} {stage now after : Stage} {a b : Env} {scope : Expr.Scope}

theorem Agree.later (agree : Agree regime now a b scope) (lead : now.LeadsTo after) :
    Agree regime after a b scope := by
  refine ⟨agree.left.grow lead.left.1, agree.right.grow lead.right.1, fun x plain => ?_, fun x called => ?_⟩
  · rw [lead.left.1.lookup_eq agree.left, lead.right.1.lookup_eq agree.right]
    exact Option.Rel.imp (fun _ _ values => Stage.Values.later values lead) (agree.plain x plain)
  · rw [lead.left.1.lookup_eq agree.left, lead.right.1.lookup_eq agree.right]
    obtain ⟨v, w, found, found', callees⟩ := agree.called x called
    exact ⟨v, w, found, found', regime.callees_later lead callees⟩

/-- Progress that leaves the corresponding environments as they are leaves the runs in step. -/
theorem InStep.later (inStep : InStep regime now) (lead : now.LeadsTo after)
    (same : ∀ {a b scope}, after.world a b scope ↔ now.world a b scope)
    (said : ∃ since, after.left.said.toList = regime.saidLeft ++ since ∧
      after.right.said.toList = regime.saidRight ++ since) : InStep regime after :=
  ⟨fun pair => (inStep.agree (same.mp pair)).later lead,
    fun pair pair' => inStep.paired (same.mp pair) (same.mp pair'), said⟩

/-- Equality of corresponding closures comes out the same in both runs. -/
theorem InStep.same_eq (inStep : InStep regime stage) {c d c' d' : Closure} (first : stage.Closures c d)
    (second : stage.Closures c' d') : c.same c' = d.same d' := by
  obtain ⟨_, pair, _⟩ := first.captured
  obtain ⟨_, pair', _⟩ := second.captured
  unfold Closure.same
  rw [first.params, first.body, second.params, second.body, decide_eq_decide.mpr (inStep.paired pair pair')]

/-! ## New frames -/

theorem Store.Made.ne_next {store : Store} {env : Env} (made : store.Made env) (outer : Env) :
    env ≠ store.next outer := by
  rintro rfl
  exact Nat.lt_irrefl _ (made _ List.mem_cons_self)

/-- The stage at which either run has made a frame, and the new environments stand for each other. -/
def Stage.push (stage : Stage) (a b : Env) (scope : Expr.Scope) (left right : Table Value) : Stage where
  world x y s := stage.world x y s ∨ x = stage.left.store.next a ∧ y = stage.right.store.next b ∧ s = scope
  left := stage.left.push left
  right := stage.right.push right

theorem Stage.leadsTo_push (stage : Stage) (a b : Env) (scope : Expr.Scope) (left right : Table Value) :
    stage.LeadsTo (stage.push a b scope left right) :=
  ⟨.inl, stage.left.leadsTo_push left, stage.right.leadsTo_push right⟩

/-- Two new frames whose entries correspond. -/
structure Entries (stage : Stage) (names : List Text) (left right : Table Value) : Prop where
  named : ∀ x, x ∈ names ↔ left.find? x ≠ none
  values : ∀ x, Option.Rel stage.Values (left.find? x) (right.find? x)

/-- Frames with corresponding entries, made over environments that agree, agree too. -/
theorem Agree.push {names : List Text} {left right : Table Value} (agree : Agree regime stage a b scope)
    (entries : Entries (stage.push a b (scope.bind names) left right) names left right) :
    Agree regime (stage.push a b (scope.bind names) left right) (stage.left.store.next a)
      (stage.right.store.next b) (scope.bind names) := by
  have outer := agree.later (stage.leadsTo_push a b (scope.bind names) left right)
  refine ⟨Store.made_push agree.left left, Store.made_push agree.right right, fun x plain => ?_, fun x called => ?_⟩
  · change Option.Rel _ ((stage.left.store.push left).lookup x _) ((stage.right.store.push right).lookup x _)
    rw [Store.lookup_push_next agree.left, Store.lookup_push_next agree.right]
    have entry := entries.values x
    have named := entries.named x
    generalize left.find? x = v at entry named ⊢
    generalize right.find? x = w at entry ⊢
    cases entry with
    | some corresponds => exact .some corresponds
    | none =>
      have outside : scope.plain x := plain.resolve_left fun bound => named.mp bound rfl
      have found := agree.plain x outside
      exact Option.Rel.imp (fun _ _ values => Stage.Values.later values (stage.leadsTo_push ..)) found
  · obtain ⟨unbound, outside⟩ := called
    change ∃ v w, (stage.left.store.push left).lookup x _ = _ ∧ (stage.right.store.push right).lookup x _ = _ ∧ _
    rw [Store.lookup_push_next agree.left, Store.lookup_push_next agree.right]
    have entry := entries.values x
    have named := entries.named x
    generalize left.find? x = v at entry named ⊢
    generalize right.find? x = w at entry ⊢
    cases entry with
    | some corresponds => exact absurd (named.mpr (Option.some_ne_none _)) unbound
    | none =>
      obtain ⟨v, w, found, found', callees⟩ := agree.called x outside
      exact ⟨v, w, found, found', regime.callees_later (stage.leadsTo_push ..) callees⟩

theorem InStep.push {names : List Text} {left right : Table Value} (inStep : InStep regime stage)
    (agree : Agree regime stage a b scope)
    (entries : Entries (stage.push a b (scope.bind names) left right) names left right) :
    InStep regime (stage.push a b (scope.bind names) left right) := by
  have lead := stage.leadsTo_push a b (scope.bind names) left right
  refine ⟨?_, ?_, inStep.said⟩
  · rintro x y s (pair | ⟨rfl, rfl, rfl⟩)
    · exact (inStep.agree pair).later lead
    · exact agree.push entries
  · rintro x y x' y' s s' (pair | ⟨rfl, rfl, rfl⟩) (pair' | ⟨rfl, rfl, rfl⟩)
    · exact inStep.paired pair pair'
    · have old := inStep.agree pair
      exact iff_of_false (old.left.ne_next a) (old.right.ne_next b)
    · have old := inStep.agree pair'
      exact iff_of_false (old.left.ne_next a).symm (old.right.ne_next b).symm
    · exact iff_of_true rfl rfl

end

end CallByValue
