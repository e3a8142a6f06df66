import CallByValue.Proofs.Simulation

/-!
# Lexical scoping

What an expression comes to depends on its environment only through the values
of its free names. Two environments that give those names the same data may
otherwise bind whatever they like, in different stores and over different frames.
-/

namespace CallByValue

/-- The same atom or the same quoted expression. Closures are no data. -/
def Value.SameData : Value → Value → Prop := Value.Rel fun _ _ => False

/-- Every name of a list is bound to the same data in both environments, or in neither. -/
def SameData (store store' : Store) (names : List Text) (a b : Env) : Prop :=
  ∀ x ∈ names, Option.Rel Value.SameData (store.lookup x a) (store'.lookup x b)

/-! ## Two runs over the same data -/

/-- Two runs of which nothing is known but what either had said, and no value can only be called. -/
def Regime.apart (before before' : Progress) : Regime where
  saidLeft := before.said.toList
  saidRight := before'.said.toList
  Callees _ _ _ := False
  callees_later _ never := never

/-- The stage at which one pair of environments stands for each other, for the names of a list. -/
def Stage.single (before before' : Progress) (a b : Env) (names : List Text) : Stage where
  world x y scope := x = a ∧ y = b ∧ scope = .only (· ∈ names)
  left := before
  right := before'

section
variable {before before' : Progress} {a b : Env} {names : List Text}

theorem inStep_single (made : before.store.Made a) (made' : before'.store.Made b)
    (data : SameData before.store before'.store names a b) :
    InStep (.apart before before') (.single before before' a b names) := by
  refine ⟨?_, ?_, [], by simp [Stage.single, Regime.apart]⟩
  · rintro x y scope ⟨rfl, rfl, rfl⟩
    refine ⟨made, made', fun name member => ?_, fun _ never => never.elim⟩
    exact Option.Rel.imp (fun _ _ values => values.imp fun _ _ never => never.elim) (data name member)
  · rintro x y x' y' scope scope' ⟨rfl, rfl, _⟩ ⟨rfl, rfl, _⟩
    exact iff_of_true rfl rfl

/-- With no names that can only be called, every expression is faithful under every budget. -/
theorem faithful_apart (channel : Channel) (levels : Nat) (e : Expr) :
    Faithful (.apart before before') .both channel levels levels e := by
  induction levels generalizing e with
  | zero => exact fun _ _ _ _ _ _ => .halted
  | succ levels ih =>
    have allows : Direction.both.Allows levels levels := rfl
    refine faithful_step allows ih ?_ e
    intro since a b scope name arg pair called _ now lead inStep
    obtain ⟨_, _, _, _, never⟩ := (inStep.agree (lead.world pair)).called name called
    exact never.elim

theorem runsAlike_of_sameData (channel : Channel) (levels : Nat) {e : Expr} (made : before.store.Made a)
    (made' : before'.store.Made b) (data : SameData before.store before'.store e.free a b) :
    RunsAlike before before' (evaluate channel levels e a before) (evaluate channel levels e b before') := by
  have within : e.Within (.only (· ∈ e.free)) := Expr.within_of_free fun _ member => member
  have corresponds : Corresponds (.apart before before') .both (.single before before' a b e.free)
      (evaluate channel levels e a) (evaluate channel levels e b) Stage.Values :=
    faithful_apart channel levels e ⟨rfl, rfl, rfl⟩ within
  exact (corresponds _ (.refl _) (inStep_single made made' data) trivial).runsAlike rfl rfl

/-- A call takes the names that are free in the body from what the closure captured, and nothing else. -/
theorem call_runsAlike (channel : Channel) (levels : Nat) {c d : Closure} {vs ws : List Value}
    (same : Closure.Alike c d) (made : before.store.Made c.env) (made' : before'.store.Made d.env)
    (data : SameData before.store before'.store (c.body.free.filter (· ∉ c.params)) c.env d.env)
    (given : List.Forall₂ Value.SameData vs ws) :
    RunsAlike before before' (c.call channel levels vs before) (d.call channel levels ws before') := by
  let start := Stage.single before before' c.env d.env (c.body.free.filter (· ∉ c.params))
  have within : c.body.Within (Expr.Scope.bind (.only (· ∈ c.body.free.filter (· ∉ c.params))) c.params) :=
    Expr.within_of_free (Expr.Scope.plain_bind_of_filter fun _ member => member)
  have closures : start.Closures c d := ⟨same.1, same.2, _, ⟨rfl, rfl, rfl⟩, within⟩
  have values : List.Forall₂ start.Values vs ws :=
    given.imp fun _ _ data => Value.Rel.imp (fun _ _ never => never.elim) data
  have corresponds : Corresponds (.apart before before') .both start (c.call channel levels vs)
      (d.call channel levels ws) Stage.Values := corresponds_call closures values (faithful_apart channel levels c.body)
  exact (corresponds _ (.refl _) (inStep_single made made' data) trivial).runsAlike rfl rfl

end

/-! ## The caller does not matter -/

theorem each_var_eq {channel : Channel} {levels : Nat} {names : List Text} {a b : Env} {before : Progress}
    (same : ∀ x ∈ names, before.store.lookup x a = before.store.lookup x b) :
    evaluateEach channel levels (names.map .var) a before = evaluateEach channel levels (names.map .var) b before := by
  unfold evaluateEach
  induction names with
  | nil => rfl
  | cons name names ih =>
    have tail := ih fun x member => same x (List.mem_cons_of_mem _ member)
    have head : evaluate channel levels (.var name) a before = evaluate channel levels (.var name) b before := by
      cases levels with
      | zero => rfl
      | succ levels =>
        rw [evaluate_var, evaluate_var, Eval.lookup_apply, Eval.lookup_apply, same name List.mem_cons_self]
    have still : (evaluate channel levels (.var name) b before).2 = before := by
      cases levels with
      | zero => rfl
      | succ levels =>
        rw [evaluate_var, Eval.lookup_apply]
        cases before.store.lookup name b <;> rfl
    simp only [List.map_cons, Eval.each]
    rw [Eval.bind_apply, Eval.bind_apply, head]
    cases run : evaluate channel levels (.var name) b before with
    | mk outcome after =>
      obtain rfl : after = before := by rw [run] at still; exact still
      cases outcome with
      | success v => simp only [Eval.bind_apply, tail]
      | _ => rfl

theorem apply_var_eq {channel : Channel} {levels : Nat} {f : Text} {names : List Text} {a b : Env} {before : Progress}
    (same : ∀ x ∈ f :: names, before.store.lookup x a = before.store.lookup x b) :
    evaluate channel levels (.apply (.var f) (names.map .var)) a before =
      evaluate channel levels (.apply (.var f) (names.map .var)) b before := by
  obtain ⟨callee, args⟩ := List.forall_mem_cons.mp same
  match levels with
  | 0 => rfl
  | 1 => rfl
  | levels + 2 =>
    rw [evaluate_apply, evaluate_apply, Eval.bind_apply, Eval.bind_apply, evaluate_var, evaluate_var,
      Eval.lookup_apply, Eval.lookup_apply, callee]
    cases before.store.lookup f b with
    | none => rfl
    | some v =>
      cases v with
      | closure c => simp only [Value.call, Eval.bind_apply, each_var_eq args]
      | _ => rfl

/-- Lexical scoping. Whatever two environments bind beside the free names of an expression, under every
    budget the runs stop together, say the same and end alike, if the environments give the free names
    the same data. So a closed program gives one answer everywhere. A call depends on what the closure
    captured for the free names of its body, and on the caller for the values of callee and arguments. -/
theorem evaluate_lexical (channel : Channel) (levels : Nat) :
    (∀ (e : Expr) (a b : Env) (before before' : Progress), before.store.Made a → before'.store.Made b →
      SameData before.store before'.store e.free a b →
        RunsAlike before before' (evaluate channel levels e a before) (evaluate channel levels e b before')) ∧
    (∀ (e : Expr) (a b : Env) (before before' : Progress) (granted : Nat), before.store.Made a →
      before'.store.Made b → e.free = [] →
        (evaluate channel levels e a before).1.answer granted =
          (evaluate channel levels e b before').1.answer granted) ∧
    (∀ (c d : Closure) (vs ws : List Value) (before before' : Progress), c.Alike d → before.store.Made c.env →
      before'.store.Made d.env →
      SameData before.store before'.store (c.body.free.filter (· ∉ c.params)) c.env d.env →
      List.Forall₂ Value.SameData vs ws →
        RunsAlike before before' (c.call channel levels vs before) (d.call channel levels ws before')) ∧
    ∀ (f : Text) (names : List Text) (a b : Env) (before : Progress),
      (∀ x ∈ f :: names, before.store.lookup x a = before.store.lookup x b) →
        evaluate channel levels (.apply (.var f) (names.map .var)) a before =
          evaluate channel levels (.apply (.var f) (names.map .var)) b before := by
  refine ⟨?_, ?_, ?_, ?_⟩
  · intro e a b before before' made made' data
    exact runsAlike_of_sameData channel levels made made' data
  · intro e a b before before' granted made made' closed
    have data : SameData before.store before'.store e.free a b := by
      intro x member
      rw [closed] at member
      cases member
    exact (runsAlike_of_sameData channel levels made made' data).1.answer_eq granted
  · intro c d vs ws before before' same made made' data given
    exact call_runsAlike channel levels same made made' data given
  · intro f names a b before same
    exact apply_var_eq same

def plainStore : Store := ⟨#[.ofPairs [(lit "n", .atom (.number (.integer 3)))]], 1⟩

/-- A store in which that number shadows another one, between names that the first store does not know. -/
def shadowingStore : Store :=
  ⟨#[.ofPairs [(lit "n", .atom (.number (.integer 5))), (lit "same", .closure ⟨[lit "it"], .var (lit "it"), []⟩)],
    .ofPairs [(lit "n", .atom (.number (.integer 3))), (lit "secret", .atom (.boolean true))]], 7⟩

def addition : Expr :=
  .letIn [(lit "add", .lambda [lit "m"] (.binary (lit "+") (.var (lit "m")) (.var (lit "n"))))]
    (.apply (.var (lit "add")) [.unary (lit "say") (.literal (.number (.integer 1)))])

/-- A function that ignores its argument, over some environment. -/
def constant (env : Env) : Closure := ⟨[lit "m"], .var (lit "n"), env⟩

theorem evaluate_lexical_addition :
    plainStore.Made [0] ∧ shadowingStore.Made [1, 0] ∧
      SameData plainStore shadowingStore addition.free [0] [1, 0] ∧
      RunsAlike (.start plainStore) (.start shadowingStore) (evaluate .console 50 addition [0] (.start plainStore))
        (evaluate .console 50 addition [1, 0] (.start shadowingStore)) ∧
      (evaluate .console 50 Expr.combinator [0] (.start plainStore)).1.answer 50 =
        (evaluate .console 50 Expr.combinator [1, 0] (.start shadowingStore)).1.answer 50 ∧
      RunsAlike (.start plainStore) (.start shadowingStore)
        ((constant [0]).call .console 50 [.quoted addition] (.start plainStore))
        ((constant [1, 0]).call .console 50 [.quoted addition] (.start shadowingStore)) ∧
      evaluate .console 50 (.apply (.var (lit "same")) [.var (lit "same")]) [0] (.start shadowingStore) =
        evaluate .console 50 (.apply (.var (lit "same")) [.var (lit "same")]) [1, 0] (.start shadowingStore) := by
  have made : plainStore.Made [0] := by simp [Store.Made, plainStore]
  have made' : shadowingStore.Made [1, 0] := by simp [Store.Made, shadowingStore]
  have data : ∀ names, (∀ x ∈ names, x = lit "n") → SameData plainStore shadowingStore names [0] [1, 0] := by
    intro names all x member
    rw [all x member]
    exact .some (.atom rfl)
  have free : ∀ x ∈ addition.free, x = lit "n" := by decide
  have body : ∀ x ∈ (constant [0]).body.free.filter (· ∉ (constant [0]).params), x = lit "n" := by decide
  have same : ∀ x ∈ [lit "same", lit "same"], shadowingStore.lookup x [0] = shadowingStore.lookup x [1, 0] := by
    intro x member
    obtain rfl : x = lit "same" := by simpa using member
    rfl
  obtain ⟨expressions, closed, calls, callers⟩ := evaluate_lexical .console 50
  refine ⟨made, made', data _ free, ?_, ?_, ?_, ?_⟩
  · exact expressions addition [0] [1, 0] (.start plainStore) (.start shadowingStore) made made' (data _ free)
  · exact closed Expr.combinator [0] [1, 0] (.start plainStore) (.start shadowingStore) 50 made made'
      Expr.free_combinator
  · exact calls (constant [0]) (constant [1, 0]) [.quoted addition] [.quoted addition] (.start plainStore)
      (.start shadowingStore) ⟨rfl, rfl⟩ made made' (data _ body) (.cons (.quoted _) .nil)
  · exact callers (lit "same") [lit "same"] [0] [1, 0] (.start shadowingStore) same

end CallByValue
