import CallByValue.Proofs.FixedPoints
import CallByValue.Proofs.Simulation

/-!
# Recursion in two ways

A function that only calls itself, with one argument at a time, may be bound
recursively or be the fixed point of a functional. Either way it comes to the
same. The recursive binding makes one frame that its closure captures; the
combinator makes frames anew at every call, and where the body calls the function
it calls a proxy.
-/

namespace CallByValue

/-- Every free occurrence of a name is the callee of a call with one argument. -/
def Expr.OnlyCalls (f : Text) (body : Expr) : Prop := body.Within ⟨(· ≠ f), (· = f)⟩

/-- A function of one parameter over some environment. -/
def functionOver (n : Text) (body : Expr) (env : Env) : Closure := ⟨[n], body, env⟩

/-- The functional of which that function is to be the fixed point. -/
def functionalOver (f n : Text) (body : Expr) (env : Env) : Closure := ⟨[f], .lambda [n] body, env⟩

/-- The call of the function as a recursive binding has it. -/
def boundCall (f n : Text) (body arg : Expr) : Expr := .apply (.letRec [(f, .lambda [n] body)] (.var f)) [arg]

def fixedCall (f n : Text) (body arg : Expr) : Expr := .apply (.fix (.lambda [f] (.lambda [n] body))) [arg]

namespace Recursion

section
variable (f n : Text) (body : Expr) (env : Env) (before : Progress)

/-- The frame of the recursive binding. -/
def knot : Table Value := .ofPairs [(f, .closure (functionOver n body (before.store.next env)))]

/-- The stage from which the two runs differ: one has made the frame of the recursive binding. The
    environments that were there before stand for themselves. -/
def base : Stage where
  world x y scope := x = y ∧ before.store.Made x ∧ scope = .only fun _ => True
  left := before.push (knot f n body env before)
  right := before

/-- In one run the function itself is called where in the other a proxy of the functional is. -/
def regime : Regime where
  saidLeft := before.said.toList
  saidRight := before.said.toList
  Callees stage v w := (base f n body env before).LeadsTo stage ∧
    v = .closure (functionOver n body (before.store.next env)) ∧
      ∃ g, w = .closure g ∧ IsProxy stage.right.store g (.closure (functionalOver f n body env))
  callees_later := by
    rintro now later v w lead ⟨since, rfl, g, rfl, proxy⟩
    exact ⟨since.trans lead, rfl, g, rfl, proxy.grow lead.right.1⟩

end

section
variable {f n : Text} {body : Expr} {env : Env} {before : Progress} {stage : Stage}

theorem values_refl (since : (base f n body env before).LeadsTo stage) {v : Value} (made : v.Made before.store) :
    stage.Values v v := by
  cases v with
  | atom a => exact .atom rfl
  | quoted e => exact .quoted e
  | closure c =>
    have pair : stage.world c.env c.env (.only fun _ => True) := since.world ⟨rfl, made c rfl, rfl⟩
    exact .closure ⟨rfl, rfl, _, pair, Expr.within_of_free fun _ _ => .inr trivial⟩

theorem lookup_refl (closed : before.store.Closed) (since : (base f n body env before).LeadsTo stage) (name : Text)
    (env' : Env) : Option.Rel stage.Values (before.store.lookup name env') (before.store.lookup name env') := by
  cases found : before.store.lookup name env' with
  | none => exact .none
  | some v => exact .some (values_refl since (closed.lookup found))

/-- As long as only the environments from before stand for each other, the runs are in step. -/
theorem inStep_of_base (closed : before.store.Closed) (since : (base f n body env before).LeadsTo stage)
    (started : before.LeadsTo stage.right) (same : stage.world = (base f n body env before).world)
    (said : ∃ spoken, stage.left.said.toList = before.said.toList ++ spoken ∧
      stage.right.said.toList = before.said.toList ++ spoken) : InStep (regime f n body env before) stage := by
  have left := (before.leadsTo_push (knot f n body env before)).trans since.left
  refine ⟨?_, ?_, said⟩
  · intro x y scope pair
    rw [same] at pair
    obtain ⟨rfl, made, rfl⟩ := pair
    refine ⟨made.grow left.1, made.grow started.1, fun name _ => ?_, fun _ never => never.elim⟩
    rw [left.1.lookup_eq made, started.1.lookup_eq made]
    exact lookup_refl closed since name x
  · intro x y x' y' scope scope' pair pair'
    rw [same] at pair pair'
    obtain ⟨rfl, _⟩ := pair
    obtain ⟨rfl, _⟩ := pair'
    exact Iff.rfl

/-- Inside the function, the frame of the recursive binding and the frame of an unrolling agree: the function
    stands in one, and in the other a proxy, which can only be called. -/
theorem agree_unrolled (made : before.store.Made env) (closed : before.store.Closed) {started : Progress}
    {g : Closure} (begun : before.LeadsTo started) (since : (base f n body env before).LeadsTo stage)
    (unrolled : (started.push (.ofPairs [(f, .closure g)])).LeadsTo stage.right)
    (proxy : IsProxy started.store g (.closure (functionalOver f n body env))) :
    Agree (regime f n body env before) stage (before.store.next env) (started.store.next env)
      ⟨(· ≠ f), (· = f)⟩ := by
  have knotted : (base f n body env before).left.store.Made (before.store.next env) := Store.made_push made _
  have opened : (started.push (.ofPairs [(f, .closure g)])).store.Made (started.store.next env) :=
    Store.made_push (made.grow begun.1) _
  have left : ∀ name, stage.left.store.lookup name (before.store.next env) =
      ((knot f n body env before).find? name).or (before.store.lookup name env) := by
    intro name
    rw [since.left.1.lookup_eq knotted]
    exact Store.lookup_push_next made _ name
  have right : ∀ name, stage.right.store.lookup name (started.store.next env) =
      ((Table.ofPairs [(f, Value.closure g)]).find? name).or (before.store.lookup name env) := by
    intro name
    rw [unrolled.1.lookup_eq opened, ← begun.1.lookup_eq made]
    exact Store.lookup_push_next (made.grow begun.1) _ name
  refine ⟨knotted.grow since.left.1, opened.grow unrolled.1, fun name plain => ?_, fun name called => ?_⟩
  · rw [left, right, knot, Table.find?_single_of_ne plain, Table.find?_single_of_ne plain]
    exact lookup_refl closed since name env
  · obtain rfl : name = f := called
    refine ⟨_, _, ?_, ?_, since, rfl, g, rfl, proxy.grow ((started.store.growsTo_push _).trans unrolled.1)⟩
    · rw [left, knot, Table.find?_single, Option.some_or]
    · rw [right, Table.find?_single, Option.some_or]

/-! ## Calls of the function -/

variable {channel : Channel} {direction : Direction} {levels levels' : Nat}

/-- The budgets between which the runs are compared: an unrolling costs a level more than a call. -/
def Affords : Direction → Nat → Nat → Prop
  | .rightward, levels, levels' => 2 * levels + 4 ≤ levels'
  | .leftward, levels, levels' => levels' ≤ levels
  | .both, _, _ => False

theorem Affords.allows (affords : Affords direction levels levels') : direction.Allows levels levels' := by
  cases direction with
  | rightward =>
    simp only [Affords, Direction.Allows] at affords ⊢
    omega
  | leftward => exact affords
  | both => exact affords.elim

/-- One level less on both sides is still afforded, also where the right side has already paid for an unrolling. -/
theorem Affords.pred (affords : Affords direction (levels + 1) (levels' + 1)) :
    Affords direction levels levels' ∧ Affords direction levels (levels' - 1) := by
  cases direction with
  | both => exact affords.elim
  | _ =>
    simp only [Affords] at affords ⊢
    omega

/-- The functional yields the function over a frame in which its own name is the argument. -/
theorem call_functional (channel : Channel) (levels : Nat) (v : Value) (started : Progress) :
    (functionalOver f n body env).call channel (levels + 1) [v] started =
      (.success (.closure (functionOver n body (started.store.next env))), started.push (.ofPairs [(f, v)])) := by
  have params : (functionalOver f n body env).params = [f] := rfl
  rw [Closure.call_single channel (levels + 1) params]
  rfl

/-- Calls of the function correspond where one run calls it in the frame of the recursive binding and the other
    in the frame of an unrolling. -/
theorem corresponds_unrolled (made : before.store.Made env) (closed : before.store.Closed)
    (onlyCalls : body.OnlyCalls f) {started : Progress} {g : Closure} (begun : before.LeadsTo started)
    (since : (base f n body env before).LeadsTo stage)
    (unrolled : (started.push (.ofPairs [(f, .closure g)])).LeadsTo stage.right)
    (proxy : IsProxy started.store g (.closure (functionalOver f n body env)))
    (faithful : Faithful (regime f n body env before) direction channel levels levels' body) {vs ws : List Value}
    (values : List.Forall₂ stage.Values vs ws) :
    Corresponds (regime f n body env before) direction stage
      ((functionOver n body (before.store.next env)).call channel levels vs)
      ((functionOver n body (started.store.next env)).call channel levels' ws) Stage.Values := by
  have agree : ∀ later, stage.LeadsTo later → InStep (regime f n body env before) later →
      Agree (regime f n body env before) later (before.store.next env) (started.store.next env)
        ⟨(· ≠ f), (· = f)⟩ :=
    fun _ lead _ => agree_unrolled made closed begun (since.trans lead) (unrolled.trans lead.right) proxy
  have within : body.Within (Expr.Scope.bind ⟨(· ≠ f), (· = f)⟩ [n]) :=
    Expr.Within.widen (Expr.Scope.below_bind _ [n]) onlyCalls
  exact corresponds_call_of_agree rfl rfl agree within values faithful

/-- In one run the function is called, in the other a proxy of the functional, which first has to be unrolled. -/
theorem corresponds_callees (made : before.store.Made env) (closed : before.store.Closed)
    (onlyCalls : body.OnlyCalls f) (affords : Affords direction (levels + 1) (levels' + 1))
    (faithful : Faithful (regime f n body env before) direction channel levels (levels' - 1) body) {g : Closure}
    (callees : (regime f n body env before).Callees stage (.closure (functionOver n body (before.store.next env)))
      (.closure g)) {v w : Value} (values : stage.Values v w) :
    Corresponds (regime f n body env before) direction stage
      ((functionOver n body (before.store.next env)).call channel levels [v]) (g.call channel levels' [w])
      Stage.Values := by
  intro now lead inStep due
  obtain ⟨since, _, _, same, proxy⟩ := (regime f n body env before).callees_later lead callees
  cases same
  obtain ⟨m, rfl⟩ : ∃ m, levels' = m + 4 := by
    refine Nat.exists_eq_add_of_le' ?_
    cases direction with
    | rightward => simp only [Affords] at affords; omega
    | leftward => exact le_of_call_proxy channel proxy due
    | both => exact affords.elim
  obtain ⟨inner, table, table', renewed, unrolled⟩ := call_proxy_run channel proxy w
  let started := (now.right.push table).push table'
  let opened := started.push (.ofPairs [(f, .closure (proxyOver inner))])
  have functional : (Value.closure (functionalOver f n body env)).call channel (m + 1)
      (pure [.closure (proxyOver inner)]) started =
        (.success (.closure (functionOver n body (started.store.next env))), opened) :=
    call_functional channel m _ started
  have result : g.call channel (m + 4) [w] now.right =
      (functionOver n body (started.store.next env)).call channel (m + 3) [w] opened :=
    (unrolled m).trans (Eval.bind_of_success functional _)
  have begun : now.right.LeadsTo started :=
    (now.right.leadsTo_push table).trans ((now.right.push table).leadsTo_push table')
  let after : Stage := ⟨now.world, now.left, opened⟩
  have further : now.LeadsTo after := ⟨id, .refl now.left, begun.trans (started.leadsTo_push _)⟩
  have calls : Corresponds (regime f n body env before) direction after
      ((functionOver n body (before.store.next env)).call channel levels [v])
      ((functionOver n body (started.store.next env)).call channel (m + 3) [w]) Stage.Values :=
    corresponds_unrolled made closed onlyCalls (since.right.trans begun) (since.trans further) (.refl opened) renewed
      faithful (.cons (values.later (lead.trans further)) .nil)
  rw [result] at due ⊢
  obtain ⟨last, more, ending⟩ := calls after (.refl after) (inStep.later further Iff.rfl inStep.said) due
  exact ⟨last, further.trans more, ending⟩

/-- A call of the name that stands for the function, or for a proxy. -/
theorem corresponds_recursive_call (made : before.store.Made env) (closed : before.store.Closed)
    (onlyCalls : body.OnlyCalls f) (affords : Affords direction (levels + 1) (levels' + 1))
    (argument : ∀ e, Faithful (regime f n body env before) direction channel levels levels' e)
    (unrolling : Faithful (regime f n body env before) direction channel levels (levels' - 1) body)
    {a b : Env} {scope : Expr.Scope} {name : Text} {arg : Expr} (pair : stage.world a b scope)
    (called : scope.called name) (within : arg.Within scope) :
    Corresponds (regime f n body env before) direction stage
      (evaluate channel (levels + 1) (.apply (.var name) [arg]) a)
      (evaluate channel (levels' + 1) (.apply (.var name) [arg]) b) Stage.Values := by
  intro now lead inStep due
  obtain ⟨_, _, found, found', callees⟩ := (inStep.agree (lead.world pair)).called name called
  obtain ⟨_, rfl, g, rfl, _⟩ := id callees
  -- Whichever run has completed has looked up the name, and the other has no fewer levels.
  have positive : 1 ≤ levels ∧ 1 ≤ levels' := by
    rw [evaluate_apply, evaluate_apply] at due
    have looked := due.of_bind
    cases direction with
    | rightward =>
      simp only [Affords] at affords
      have left : levels ≠ 0 := by rintro rfl; exact looked
      omega
    | leftward =>
      simp only [Affords] at affords
      have right : levels' ≠ 0 := by rintro rfl; exact looked
      omega
    | both => exact affords.elim
  obtain ⟨⟨l, rfl⟩, ⟨m, rfl⟩⟩ := And.intro (Nat.exists_eq_add_of_le' positive.1) (Nat.exists_eq_add_of_le' positive.2)
  have left : evaluate channel (l + 2) (.apply (.var name) [arg]) a now.left =
      (evaluateEach channel (l + 1) [arg] a >>=
        (functionOver n body (before.store.next env)).call channel (l + 1)) now.left :=
    Eval.bind_of_success (evaluate_var_of_lookup channel l a found) _
  have right : evaluate channel (m + 2) (.apply (.var name) [arg]) b now.right =
      (evaluateEach channel (m + 1) [arg] b >>= g.call channel (m + 1)) now.right :=
    Eval.bind_of_success (evaluate_var_of_lookup channel m b found') _
  rw [left, right] at due ⊢
  have part : ∀ e ∈ [arg], Corresponds (regime f n body env before) direction now (evaluate channel (l + 1) e a)
      (evaluate channel (m + 1) e b) Stage.Values := by
    intro e member
    obtain rfl := List.mem_singleton.mp member
    exact argument e (lead.world pair) within
  refine Corresponds.bind (.each part) (fun after vs ws further given => ?_) now (.refl now) inStep due
  obtain ⟨length, values⟩ := given
  cases values with
  | nil => cases length
  | cons first rest =>
    cases rest with
    | nil =>
      exact corresponds_callees made closed onlyCalls affords unrolling
        ((regime f n body env before).callees_later further callees) first
    | cons _ _ => cases length

/-- Between budgets that are afforded every expression is faithful. -/
theorem faithful (channel : Channel) (made : before.store.Made env) (closed : before.store.Closed)
    (onlyCalls : body.OnlyCalls f) (affords : Affords direction levels levels') (e : Expr) :
    Faithful (regime f n body env before) direction channel levels levels' e := by
  induction levels generalizing levels' e with
  | zero =>
    intro since a b scope pair within now lead inStep due
    cases direction with
    | rightward => exact due.elim
    | leftward =>
      obtain rfl : levels' = 0 := Nat.le_zero.mp affords
      exact due.elim
    | both => exact affords.elim
  | succ levels ih =>
    cases levels' with
    | zero =>
      intro since a b scope pair within now lead inStep due
      cases direction with
      | rightward => simp only [Affords] at affords; omega
      | leftward => exact due.elim
      | both => exact affords.elim
    | succ levels' =>
      obtain ⟨less, unrolled⟩ := affords.pred
      refine faithful_step less.allows (fun e => ih less e) (fun pair called within => ?_) e
      exact corresponds_recursive_call made closed onlyCalls affords (fun e => ih less e) (ih unrolled body) pair called
        within

/-! ## Both calls from the beginning -/

/-- The recursive binding makes its frame, and then the function is called. -/
theorem evaluate_boundCall (channel : Channel) (levels : Nat) (arg : Expr) (made : before.store.Made env) :
    evaluate channel (levels + 3) (boundCall f n body arg) env before =
      (evaluateEach channel (levels + 2) [arg] env >>=
        (functionOver n body (before.store.next env)).call channel (levels + 2))
          (before.push (knot f n body env before)) := by
  have found : (before.push (knot f n body env before)).store.lookup f (before.store.next env) =
      some (.closure (functionOver n body (before.store.next env))) := by
    refine (Store.lookup_push_next made _ f).trans ?_
    rw [knot, Table.find?_single, Option.some_or]
  have callee : evaluate channel (levels + 2) (.letRec [(f, .lambda [n] body)] (.var f)) env before =
      (.success (.closure (functionOver n body (before.store.next env))), before.push (knot f n body env before)) :=
    evaluate_var_of_lookup channel levels (before.store.next env) found
  exact Eval.bind_of_success callee _

/-- The combinator makes its frames, the functional a frame with a proxy, and then the function is called. -/
theorem evaluate_fixedCall (channel : Channel) (f n : Text) (body arg : Expr) (env : Env) (before : Progress) :
    ∃ g started, before.Framed started ∧ IsProxy started.store g (.closure (functionalOver f n body env)) ∧
      ∀ levels, evaluate channel (levels + 6) (fixedCall f n body arg) env before =
        (evaluateEach channel (levels + 5) [arg] env >>=
          (functionOver n body (started.store.next env)).call channel (levels + 5))
            (started.push (.ofPairs [(f, .closure g)])) := by
  obtain ⟨inner, table, table', proxy, tied⟩ := tie_run channel env (.closure (functionalOver f n body env)) before
  refine ⟨proxyOver inner, _, before.framed_push table table', proxy, fun levels => ?_⟩
  have callee : evaluate channel (levels + 5) (.fix (.lambda [f] (.lambda [n] body))) env before = _ :=
    (congrFun (evaluate_fix_run channel levels _ env) before).trans
      ((tied (levels + 1)).trans (call_functional channel levels _ _))
  exact Eval.bind_of_success callee _

/-- Under budgets that are afforded, a run that completes has its like. -/
theorem runsAlike_of_affords (channel : Channel) (made : before.store.Made env) (closed : before.store.Closed)
    (onlyCalls : body.OnlyCalls f) (arg : Expr) (affords : Affords direction (levels + 2) (levels' + 5))
    (due : direction.Due (evaluate channel (levels + 3) (boundCall f n body arg) env before).1
      (evaluate channel (levels' + 6) (fixedCall f n body arg) env before).1) :
    RunsAlike before before (evaluate channel (levels + 3) (boundCall f n body arg) env before)
      (evaluate channel (levels' + 6) (fixedCall f n body arg) env before) := by
  obtain ⟨g, started, framed, proxy, unrolled⟩ := evaluate_fixedCall channel f n body arg env before
  rw [evaluate_boundCall channel levels arg made, unrolled] at due ⊢
  let stage : Stage := ⟨(base f n body env before).world, before.push (knot f n body env before),
    started.push (.ofPairs [(f, .closure g)])⟩
  have begun : before.LeadsTo stage.right := framed.leadsTo.trans (started.leadsTo_push _)
  have since : (base f n body env before).LeadsTo stage := ⟨id, .refl _, begun⟩
  have said : stage.left.said.toList = before.said.toList ++ [] ∧ stage.right.said.toList = before.said.toList ++ [] :=
    ⟨(List.append_nil _).symm, (congrArg Array.toList framed.2.2).trans (List.append_nil _).symm⟩
  have inStep : InStep (regime f n body env before) stage := inStep_of_base closed since begun rfl ⟨[], said⟩
  have bodies : ∀ e, Faithful (regime f n body env before) direction channel (levels + 2) (levels' + 5) e :=
    fun e => faithful channel made closed onlyCalls affords e
  have part : ∀ e ∈ [arg], Corresponds (regime f n body env before) direction stage
      (evaluate channel (levels + 2) e env) (evaluate channel (levels' + 5) e env) Stage.Values :=
    fun e _ => bodies e ⟨rfl, made, rfl⟩ (Expr.within_of_free fun _ _ => trivial)
  have calls := Corresponds.bind (.each part) fun after vs ws further given =>
    corresponds_unrolled made closed onlyCalls framed.leadsTo (since.trans further) further.right proxy (bodies body)
      given.2
  exact (calls stage (.refl stage) inStep due).runsAlike rfl rfl

theorem settles_fixedCall (made : before.store.Made env) (closed : before.store.Closed) (onlyCalls : body.OnlyCalls f)
    {arg : Expr} {outcome : Outcome Value} {last : Progress}
    (settles : Settles (fun levels => evaluate channel levels (boundCall f n body arg) env) before outcome last) :
    ∃ other final, Settles (fun levels => evaluate channel levels (fixedCall f n body arg) env) before other final ∧
      RunsAlike before before (outcome, last) (other, final) := by
  obtain ⟨levels, le, ends⟩ := settles.above (rising_evaluate channel _ env) 3
  obtain ⟨levels, rfl⟩ := Nat.exists_eq_add_of_le' le
  have affords : Affords .rightward (levels + 2) (2 * levels + 3 + 5) := by simp only [Affords]; omega
  have due : Direction.rightward.Due (evaluate channel (levels + 3) (boundCall f n body arg) env before).1
      (evaluate channel (2 * levels + 3 + 6) (fixedCall f n body arg) env before).1 := by
    rw [ends]
    exact settles.1
  have alike := runsAlike_of_affords channel made closed onlyCalls arg affords due
  rw [ends] at alike
  exact ⟨_, _, ⟨alike.1.completed_iff.mp settles.1, _, rfl⟩, alike⟩

theorem settles_boundCall (made : before.store.Made env) (closed : before.store.Closed) (onlyCalls : body.OnlyCalls f)
    {arg : Expr} {outcome : Outcome Value} {last : Progress}
    (settles : Settles (fun levels => evaluate channel levels (fixedCall f n body arg) env) before outcome last) :
    ∃ other final, Settles (fun levels => evaluate channel levels (boundCall f n body arg) env) before other final := by
  obtain ⟨levels, le, ends⟩ := settles.above (rising_evaluate channel _ env) 6
  obtain ⟨levels, rfl⟩ := Nat.exists_eq_add_of_le' le
  have affords : Affords .leftward (levels + 3 + 2) (levels + 5) := Nat.le_refl _
  have due : Direction.leftward.Due (evaluate channel (levels + 3 + 3) (boundCall f n body arg) env before).1
      (evaluate channel (levels + 6) (fixedCall f n body arg) env before).1 := by
    rw [ends]
    exact settles.1
  have alike := runsAlike_of_affords channel made closed onlyCalls arg affords due
  rw [ends] at alike
  exact ⟨_, _, alike.1.completed_iff.mpr settles.1, _, rfl⟩

end

end Recursion

/-- A function that only calls itself comes to the same whether it is bound recursively or the fixed point of
    a functional, whatever its names are: one call settles if the other does, and then both say the same and
    end alike, so that they are shown alike. Both leave closed stores, as all evaluation does that begins with one. -/
theorem boundCall_like_fixedCall (channel : Channel) {f n : Text} {body : Expr} (arg : Expr) {env : Env}
    {before : Progress} (onlyCalls : body.OnlyCalls f) (made : before.store.Made env) (closed : before.store.Closed) :
    ((∃ outcome last,
        Settles (fun levels => evaluate channel levels (boundCall f n body arg) env) before outcome last) ↔
      ∃ outcome last,
        Settles (fun levels => evaluate channel levels (fixedCall f n body arg) env) before outcome last) ∧
    ∀ outcome last other final,
      Settles (fun levels => evaluate channel levels (boundCall f n body arg) env) before outcome last →
      Settles (fun levels => evaluate channel levels (fixedCall f n body arg) env) before other final →
        RunsAlike before before (outcome, last) (other, final) ∧
          (∀ granted, outcome.answer granted = other.answer granted) ∧ last.store.Closed ∧ final.store.Closed := by
  have leaves : ∀ {e : Expr} {outcome : Outcome Value} {last : Progress},
      Settles (fun levels => evaluate channel levels e env) before outcome last → last.store.Closed := by
    rintro e outcome last ⟨_, levels, ends⟩
    obtain ⟨kept, _⟩ := evaluate_closed channel levels e made closed
    have left : (evaluate channel levels e env before).2 = last := congrArg Prod.snd ends
    rwa [left] at kept
  refine ⟨⟨?_, ?_⟩, ?_⟩
  · rintro ⟨_, _, settles⟩
    obtain ⟨other, final, fixed, _⟩ := Recursion.settles_fixedCall made closed onlyCalls settles
    exact ⟨other, final, fixed⟩
  · rintro ⟨_, _, settles⟩
    exact Recursion.settles_boundCall made closed onlyCalls settles
  · intro outcome last other final settles fixed
    obtain ⟨_, _, found, alike⟩ := Recursion.settles_fixedCall made closed onlyCalls settles
    obtain ⟨rfl, rfl⟩ := found.unique (rising_evaluate channel _ env) fixed
    exact ⟨alike, fun granted => alike.1.answer_eq granted, leaves settles, leaves fixed⟩

/-- A body that counts down, under the names of the combinator itself, and then says what is never evaluated. -/
def descent : Expr :=
  .conditional (.unary (lit "zero?") (.var (lit "v"))) (.unary (lit "say") (.var (lit "x")))
    (.apply (.var (lit "x")) [.binary (lit "-") (.var (lit "v")) (.literal (.number (.integer 1)))])

theorem boundCall_like_fixedCall_descent :
    descent.OnlyCalls (lit "x") ∧ busyStore.Made [0] ∧ busyStore.Closed ∧
      ∃ outcome last other final,
        Settles (fun levels => evaluate .console levels
          (boundCall (lit "x") (lit "v") descent (.literal (.number (.integer 2)))) [0]) (.start busyStore) outcome last ∧
        Settles (fun levels => evaluate .console levels
          (fixedCall (lit "x") (lit "v") descent (.literal (.number (.integer 2)))) [0]) (.start busyStore) other final ∧
        RunsAlike (.start busyStore) (.start busyStore) (outcome, last) (other, final) := by
  have differs : lit "v" ≠ lit "x" := by decide
  have onlyCalls : descent.OnlyCalls (lit "x") :=
    ⟨.inr differs, .inl rfl, .inr ⟨_, _, rfl, rfl, rfl⟩, ⟨differs, trivial⟩, trivial⟩
  have made : busyStore.Made [0] := by simp [Store.Made, busyStore, Store.push, Store.empty]
  have closed : busyStore.Closed := by
    refine Store.closed_empty.push fun name v found => ?_
    have member := Table.mem_of_find?_ofPairs found
    simp only [List.mem_cons, Prod.mk.injEq, List.not_mem_nil, or_false] at member
    rcases member with ⟨_, rfl⟩ | ⟨_, rfl⟩ | ⟨_, rfl⟩ <;> exact Value.made_atom _
  obtain ⟨both, alike⟩ := @boundCall_like_fixedCall .console (lit "x") (lit "v") descent
    (.literal (.number (.integer 2))) [0] (.start busyStore) onlyCalls made closed
  have settles : Settles (fun levels => evaluate .console levels
      (boundCall (lit "x") (lit "v") descent (.literal (.number (.integer 2)))) [0]) (.start busyStore)
      (.success (.quoted (.var (lit "x")))) _ := ⟨trivial, 40, rfl⟩
  obtain ⟨other, final, fixed⟩ := both.mp ⟨_, _, settles⟩
  exact ⟨onlyCalls, made, closed, _, _, other, final, settles, fixed, (alike _ _ _ _ settles fixed).1⟩

end CallByValue
