import CallByValue.Proofs.Budgets
import CallByValue.Proofs.Closedness
import CallByValue.Proofs.Names

/-!
# Fixed points

How the combinator gives a functional its fixed point. It passes the functional
a proxy, a function of one parameter that, once called, passes the functional a
new proxy and calls what comes back with its own argument.
-/

namespace CallByValue

/-- What the wrapper becomes over some environment. -/
def wrapperOver (env : Env) : Closure := ⟨[lit "x"], Expr.wrapped, env⟩

/-- What the self-application that waits for an argument becomes over some environment. -/
def proxyOver (env : Env) : Closure := ⟨[lit "v"], Expr.again, env⟩

/-- The innermost frame of an environment binds a name to a value. -/
def Store.HeadBinds (store : Store) (env : Env) (name : Text) (value : Value) : Prop :=
  ∃ frame outer, env = frame :: outer ∧ (store.bindings frame).find? name = some value

/-- A proxy of a value: its frame holds a wrapper whose frame holds the value. -/
def IsProxy (store : Store) (g : Closure) (v : Value) : Prop :=
  g.params = [lit "v"] ∧ g.body = Expr.again ∧
    ∃ outer, store.HeadBinds g.env (lit "x") (.closure (wrapperOver outer)) ∧ store.HeadBinds outer (lit "f") v

namespace Store

variable {store after : Store} {env : Env} {name : Text} {value : Value}

theorem HeadBinds.lookup_eq (bound : store.HeadBinds env name value) : store.lookup name env = some value := by
  obtain ⟨frame, outer, rfl, found⟩ := bound
  rw [lookup_cons, found, Option.some_or]

theorem HeadBinds.grow (bound : store.HeadBinds env name value) (growth : store.GrowsTo after) :
    after.HeadBinds env name value := by
  obtain ⟨frame, outer, same, found⟩ := bound
  exact ⟨frame, outer, same, growth.find?_eq_some found⟩

theorem headBinds_push (store : Store) (env : Env) (name : Text) (value : Value) :
    (store.push (.ofPairs [(name, value)])).HeadBinds (store.next env) name value := by
  refine ⟨store.frames.size, env, rfl, ?_⟩
  rw [bindings_push_size, Table.find?_single]

/-- Under a new frame of one binding other names keep the value that the frame below gives them. -/
theorem HeadBinds.lookup_push_next (bound : store.HeadBinds env name value) {other : Text} (differs : other ≠ name)
    (v : Value) : (store.push (.ofPairs [(other, v)])).lookup name (store.next env) = some value := by
  rw [next, lookup_cons, bindings_push_size, Table.find?_single_of_ne differs.symm, Option.none_or]
  exact (bound.grow (store.growsTo_push _)).lookup_eq

end Store

theorem IsProxy.grow {store after : Store} {g : Closure} {v : Value} (proxy : IsProxy store g v)
    (growth : store.GrowsTo after) : IsProxy after g v := by
  obtain ⟨params, body, outer, waiting, held⟩ := proxy
  exact ⟨params, body, outer, waiting.grow growth, held.grow growth⟩

/-! ## One unrolling -/

section
variable (channel : Channel)

theorem Closure.call_single (levels : Nat) {c : Closure} {name : Text} (params : c.params = [name]) (v : Value)
    (before : Progress) :
    c.call channel levels [v] before =
      evaluate channel levels c.body (before.store.next c.env) (before.push (.ofPairs [(name, v)])) := by
  rw [c.call_of_arity channel levels (by rw [Closure.arity, params]; rfl) before, params]
  rfl

/-- The wrapper called with itself calls what it holds with a proxy over its new frame. -/
theorem call_wrapper (levels : Nat) {outer : Env} {u : Value} {before : Progress}
    (held : before.store.HeadBinds outer (lit "f") u) (w : Value) :
    (wrapperOver outer).call channel (levels + 2) [w] before =
      u.call channel (levels + 1) (pure [.closure (proxyOver (before.store.next outer))])
        (before.push (.ofPairs [(lit "x", w)])) := by
  have differs : lit "x" ≠ lit "f" := by decide
  have callee : evaluate channel (levels + 1) (.var (lit "f")) (before.store.next outer)
      (before.push (.ofPairs [(lit "x", w)])) = (.success u, before.push (.ofPairs [(lit "x", w)])) :=
    evaluate_var_of_lookup channel levels _ (held.lookup_push_next differs w)
  rw [Closure.call_single channel (levels + 2) rfl]
  change evaluate channel (levels + 2) Expr.wrapped (before.store.next outer) _ = _
  rw [Expr.wrapped, evaluate_apply, Eval.bind_of_success callee]
  rfl

theorem evaluate_restart (levels : Nat) {env outer : Env} {before : Progress}
    (waiting : before.store.lookup (lit "x") env = some (.closure (wrapperOver outer))) :
    evaluate channel (levels + 2) (.apply (.var (lit "x")) [.var (lit "x")]) env before =
      (wrapperOver outer).call channel (levels + 1) [.closure (wrapperOver outer)] before := by
  have wrapper := evaluate_var_of_lookup channel levels env waiting
  rw [evaluate_apply, Eval.bind_of_success wrapper]
  exact Eval.bind_of_success (evaluateEach_single channel _ _ wrapper) _

/-- What the combinator does with the value of a functional. -/
def tie (channel : Channel) (levels : Nat) (env : Env) (u : Value) : Eval Value := do
  let outer ← Eval.extend env [(lit "f", u)]
  let inner ← Eval.extend outer [(lit "x", .closure (wrapperOver outer))]
  u.call channel levels (pure [.closure (proxyOver inner)])

/-- The functional is evaluated once, in the same environment, and its value is called with a proxy. -/
theorem evaluate_fix_run (levels : Nat) (functional : Expr) (env : Env) :
    evaluate channel (levels + 5) (.fix functional) env =
      evaluate channel (levels + 3) functional env >>= tie channel (levels + 1) env := by
  funext before
  rw [evaluate_fix, Expr.fixedPoint_eq, evaluate_apply, Expr.combinator, evaluate_lambda, Eval.pure_bind]
  simp only [Value.call, evaluateEach, Eval.each]
  rw [Eval.bind_apply, Eval.bind_apply, Eval.bind_apply]
  cases run : evaluate channel (levels + 3) functional env before with
  | mk outcome after =>
    cases outcome with
    | success u =>
      let opened := after.push (.ofPairs [(lit "f", u)])
      have held : opened.store.HeadBinds (after.store.next env) (lit "f") u := after.store.headBinds_push env _ u
      exact call_wrapper channel levels held (.closure (wrapperOver (after.store.next env)))
    | failure e => rfl
    | halted h => rfl

/-- The frames that the combinator makes hold a proxy of the functional's value. -/
theorem tie_run (env : Env) (u : Value) (before : Progress) :
    ∃ inner table table', IsProxy ((before.push table).push table').store (proxyOver inner) u ∧
      ∀ levels, tie channel levels env u before =
        u.call channel levels (pure [.closure (proxyOver inner)]) ((before.push table).push table') := by
  let table := Table.ofPairs [(lit "f", u)]
  let outer := before.store.next env
  let table' := Table.ofPairs [(lit "x", Value.closure (wrapperOver outer))]
  have held : (before.push table).store.HeadBinds outer (lit "f") u := before.store.headBinds_push env _ u
  have waiting : ((before.push table).push table').store.HeadBinds ((before.push table).store.next outer) (lit "x")
      (.closure (wrapperOver outer)) := (before.push table).store.headBinds_push outer _ _
  exact ⟨_, table, table', ⟨rfl, rfl, outer, waiting, held.grow ((before.push table).store.growsTo_push table')⟩,
    fun _ => rfl⟩

theorem Value.call_leadsTo (channel : Channel) (levels : Nat) (values : List Value) (u : Value) (before : Progress) :
    before.LeadsTo (u.call channel levels (pure values) before).2 := by
  cases u with
  | closure c => exact CallByValue.call_leadsTo channel levels c values before
  | _ => exact .refl before

/-- A proxy called with a value passes what it stands for a new proxy and calls the result with the value. -/
theorem call_proxy_run {g : Closure} {u : Value} {before : Progress} (proxy : IsProxy before.store g u) (v : Value) :
    ∃ inner table table', IsProxy ((before.push table).push table').store (proxyOver inner) u ∧
      ∀ levels, g.call channel (levels + 4) [v] before = (do
        let r ← u.call channel (levels + 1) (pure [.closure (proxyOver inner)])
        r.call channel (levels + 3) (pure [v])) ((before.push table).push table') := by
  obtain ⟨params, body, outer, waiting, held⟩ := proxy
  let table := Table.ofPairs [(lit "v", v)]
  let table' := Table.ofPairs [(lit "x", Value.closure (wrapperOver outer))]
  let opened := before.push table
  have growth : before.store.GrowsTo opened.store := before.store.growsTo_push table
  have differs : lit "v" ≠ lit "x" := by decide
  refine ⟨opened.store.next outer, table, table', ?_, ?_⟩
  · have newest : (opened.push table').store.HeadBinds (opened.store.next outer) (lit "x")
        (.closure (wrapperOver outer)) := opened.store.headBinds_push outer _ _
    exact ⟨rfl, rfl, outer, newest, (held.grow growth).grow (opened.store.growsTo_push table')⟩
  · intro levels
    have restarted : evaluate channel (levels + 3) (.apply (.var (lit "x")) [.var (lit "x")]) (before.store.next g.env)
        opened = u.call channel (levels + 1) (pure [.closure (proxyOver (opened.store.next outer))])
          (opened.push table') := by
      rw [evaluate_restart channel (levels + 1) (waiting.lookup_push_next differs v)]
      exact call_wrapper channel levels (held.grow growth) _
    rw [Closure.call_single channel (levels + 4) params, body]
    change evaluate channel (levels + 4) Expr.again (before.store.next g.env) opened = _
    rw [Expr.again, evaluate_apply, Eval.bind_apply, Eval.bind_apply, restarted]
    cases run : u.call channel (levels + 1) (pure [.closure (proxyOver (opened.store.next outer))])
        (opened.push table') with
    | mk outcome after =>
      cases outcome with
      | failure e => rfl
      | halted h => rfl
      | success r =>
        -- The argument is looked up only now, but its frame has not changed.
        have further := Value.call_leadsTo channel (levels + 1) [.closure (proxyOver (opened.store.next outer))] u
          (opened.push table')
        rw [run] at further
        have kept := (before.store.headBinds_push g.env (lit "v") v).grow
          ((opened.leadsTo_push table').trans further).1
        have argument := evaluateEach_single channel (levels + 3) _
          (evaluate_var_of_lookup channel (levels + 2) _ kept.lookup_eq)
        cases r with
        | closure c => exact Eval.bind_of_success argument _
        | _ => rfl

theorem le_of_call_proxy {levels : Nat} {g : Closure} {u v : Value} {before : Progress}
    (proxy : IsProxy before.store g u) (completed : (g.call channel levels [v] before).1.Completed) : 4 ≤ levels := by
  refine Nat.le_of_not_lt fun few => ?_
  have same := g.call_below channel (Nat.le_of_lt_succ few) [v] before completed
  rw [← same] at completed
  obtain ⟨params, body, outer, waiting, _⟩ := proxy
  have differs : lit "v" ≠ lit "x" := by decide
  have waits : (before.push (.ofPairs [(lit "v", v)])).store.lookup (lit "x") (before.store.next g.env) =
      some (.closure (wrapperOver outer)) := waiting.lookup_push_next differs v
  rw [Closure.call_single channel 3 params, body] at completed
  change (evaluate channel 3 Expr.again (before.store.next g.env) _).1.Completed at completed
  rw [Expr.again, evaluate_apply] at completed
  have inner := Eval.completed_of_bind completed
  rw [evaluate_restart channel 0 waits] at inner
  exact inner

end

/-! ## The law -/

/-- Nothing has happened but that frames were added. -/
def Progress.Framed (before after : Progress) : Prop :=
  before.store.GrowsTo after.store ∧ after.store.nextMark = before.store.nextMark ∧ after.said = before.said

theorem Progress.framed_push (before : Progress) (table table' : Table Value) :
    before.Framed ((before.push table).push table') :=
  ⟨(before.store.growsTo_push table).trans ((before.push table).store.growsTo_push table'), rfl, rfl⟩

theorem Progress.Framed.leadsTo {before after : Progress} (framed : before.Framed after) : before.LeadsTo after := by
  obtain ⟨growth, _, said⟩ := framed
  have same : after.said.toList = before.said.toList := congrArg Array.toList said
  exact ⟨growth, same ▸ List.prefix_rfl⟩

section
variable {channel : Channel} {functional : Expr} {env : Env} {before after : Progress}

theorem rising_tie (channel : Channel) (env : Env) (u : Value) : Rising fun levels => tie channel levels env u :=
  fun _ _ le => .bind (.refl _) fun _ => .bind (.refl _) fun _ => u.call_below channel le _

/-- A functional that has settled looks the same under every larger budget. -/
theorem evaluate_of_settled {outcome : Outcome Value} {levels more : Nat} (completed : outcome.Completed)
    (ends : evaluate channel levels functional env before = (outcome, after)) (le : levels ≤ more) :
    evaluate channel more functional env before = (outcome, after) := by
  rw [evaluate_below channel le functional env before (by rw [ends]; exact completed), ends]

theorem settles_of_settles_fix {outcome : Outcome Value} {last : Progress}
    (settles : Settles (fun levels => evaluate channel levels (.fix functional) env) before outcome last) :
    ∃ o p, Settles (fun levels => evaluate channel levels functional env) before o p := by
  obtain ⟨levels, le, ends⟩ := settles.above (rising_evaluate channel _ env) 5
  obtain ⟨levels, rfl⟩ := Nat.exists_eq_add_of_le' le
  rw [evaluate_fix_run] at ends
  have completed : (evaluate channel (levels + 3) functional env before).1.Completed :=
    Eval.completed_of_bind (by rw [ends]; exact settles.1)
  exact ⟨_, _, completed, levels + 3, rfl⟩

theorem settles_fix_of_failure {e : Failure}
    (settles : Settles (fun levels => evaluate channel levels functional env) before (.failure e) after) :
    Settles (fun levels => evaluate channel levels (.fix functional) env) before (.failure e) after := by
  obtain ⟨completed, levels, ends⟩ := settles
  have run := evaluate_of_settled completed ends (Nat.le_add_right levels 3)
  have unrolled := congrFun (evaluate_fix_run channel levels functional env) before
  exact ⟨completed, levels + 5, unrolled.trans (Eval.bind_of_failure run _)⟩

theorem settles_fix_iff {u : Value}
    (settles : Settles (fun levels => evaluate channel levels functional env) before (.success u) after)
    (outcome : Outcome Value) (last : Progress) :
    Settles (fun levels => evaluate channel levels (.fix functional) env) before outcome last ↔
      Settles (fun levels => tie channel levels env u) after outcome last := by
  obtain ⟨completed, least, ends⟩ := settles
  have unrolled : ∀ levels, least ≤ levels →
      evaluate channel (levels + 5) (.fix functional) env before = tie channel (levels + 1) env u after := by
    intro levels le
    rw [evaluate_fix_run]
    exact Eval.bind_of_success (evaluate_of_settled completed ends (Nat.le_add_right_of_le le)) _
  constructor
  · intro fixed
    obtain ⟨levels, le, run⟩ := fixed.above (rising_evaluate channel _ env) (least + 5)
    obtain ⟨more, rfl⟩ := Nat.exists_eq_add_of_le' le
    exact ⟨fixed.1, more + least + 1, (unrolled _ (Nat.le_add_left least more)).symm.trans run⟩
  · intro tied
    obtain ⟨levels, le, run⟩ := tied.above (rising_tie channel env u) (least + 1)
    obtain ⟨more, rfl⟩ := Nat.exists_eq_add_of_le' le
    exact ⟨tied.1, more + least + 5, (unrolled _ (Nat.le_add_left least more)).trans run⟩

/-- A proxy of a closure settles on a value as the closure does on what a new proxy gives it. -/
theorem settles_proxy_iff {g c : Closure} (proxy : IsProxy before.store g (.closure c)) (v : Value) :
    ∃ g' framed, before.Framed framed ∧ IsProxy framed.store g' (.closure c) ∧
      (∀ levels, g.call channel (levels + 4) [v] before = (do
        let r ← c.call channel (levels + 1) [.closure g']
        r.call channel (levels + 3) (pure [v])) framed) ∧
      ∀ outcome last, Settles (fun levels => g.call channel levels [v]) before outcome last ↔
        Settles (fun levels => do
          let r ← c.call channel levels [.closure g']
          r.call channel levels (pure [v])) framed outcome last := by
  obtain ⟨inner, table, table', renewed, unrolled⟩ := call_proxy_run channel proxy v
  refine ⟨proxyOver inner, _, before.framed_push table table', renewed, unrolled, fun outcome last => ?_⟩
  let twice (levels more : Nat) : Eval Value := do
    let r ← c.call channel levels [.closure (proxyOver inner)]
    r.call channel more (pure [v])
  have rising : ∀ {levels more levels' more' : Nat}, levels ≤ more → levels' ≤ more' →
      (twice levels levels').Below (twice more more') :=
    fun le le' => .bind (c.call_below channel le _) fun r => r.call_below channel le' _
  constructor
  · intro called
    obtain ⟨levels, le, run⟩ := called.above (rising_call channel g [v]) 4
    obtain ⟨levels, rfl⟩ := Nat.exists_eq_add_of_le' le
    have split : twice (levels + 1) (levels + 3) _ = (outcome, last) := (unrolled levels).symm.trans run
    have same := rising (Nat.le_add_right (levels + 1) 2) (Nat.le_refl (levels + 3)) _ (by rw [split]; exact called.1)
    exact ⟨called.1, levels + 3, same.trans split⟩
  · rintro ⟨completed, levels, run⟩
    have split : twice levels levels _ = (outcome, last) := run
    have same := rising (Nat.le_add_right levels 1) (Nat.le_add_right levels 3) _ (by rw [split]; exact completed)
    exact ⟨completed, levels + 4, (unrolled levels).trans (same.trans split)⟩

/-- The fixed point of a functional whose value is no function of one argument fails as a call of it does. -/
theorem settles_fix_of_refusal {u : Value} {e : Failure}
    (settles : Settles (fun levels => evaluate channel levels functional env) before (.success u) after)
    (refuses : ∀ levels g, u.call channel levels (pure [g]) = .ended (.failure e)) :
    ∃ framed, after.Framed framed ∧
      Settles (fun levels => evaluate channel levels (.fix functional) env) before (.failure e) framed := by
  obtain ⟨inner, table, table', _, tied⟩ := tie_run channel env u after
  have ends : tie channel 0 env u after = (.failure e, (after.push table).push table') := by
    rw [tied, refuses]
    rfl
  exact ⟨_, after.framed_push table table', (settles_fix_iff settles _ _).mpr ⟨trivial, 0, ends⟩⟩

theorem settles_fix_iff_call {c : Closure}
    (settles : Settles (fun levels => evaluate channel levels functional env) before (.success (.closure c)) after) :
    ∃ g framed, after.Framed framed ∧ IsProxy framed.store g (.closure c) ∧ ∀ outcome last,
      Settles (fun levels => evaluate channel levels (.fix functional) env) before outcome last ↔
        Settles (fun levels => c.call channel levels [.closure g]) framed outcome last := by
  obtain ⟨inner, table, table', proxy, tied⟩ := tie_run channel env (.closure c) after
  refine ⟨proxyOver inner, _, after.framed_push table table', proxy, fun outcome last => ?_⟩
  rw [settles_fix_iff settles]
  unfold Settles
  simp only [tied]
  rfl

end

/-- The law of fixed points. The functional is evaluated once, in the environment of the form, and the rest
    knows nothing of it but its value; where it fails, the fixed point fails so, and where its value is no
    function of one argument, as a call of that value does. Otherwise the fixed point comes to what the
    function makes of a proxy of itself, and so does every proxy, called with whatever value. -/
theorem fix_law (channel : Channel) :
    (∀ (functional : Expr) (env : Env),
      (∀ levels, evaluate channel (levels + 5) (.fix functional) env =
        evaluate channel (levels + 3) functional env >>= tie channel (levels + 1) env) ∧
      ∀ before : Progress,
        (∀ outcome last, Settles (fun levels => evaluate channel levels (.fix functional) env) before outcome last →
          ∃ o p, Settles (fun levels => evaluate channel levels functional env) before o p) ∧
        (∀ e after, Settles (fun levels => evaluate channel levels functional env) before (.failure e) after →
          Settles (fun levels => evaluate channel levels (.fix functional) env) before (.failure e) after) ∧
        (∀ u after, (∀ c, u ≠ .closure c) →
          Settles (fun levels => evaluate channel levels functional env) before (.success u) after →
          ∃ framed, after.Framed framed ∧
            Settles (fun levels => evaluate channel levels (.fix functional) env) before (.failure (.notCallable u))
              framed) ∧
        (∀ c after, c.arity ≠ 1 →
          Settles (fun levels => evaluate channel levels functional env) before (.success (.closure c)) after →
          ∃ framed, after.Framed framed ∧
            Settles (fun levels => evaluate channel levels (.fix functional) env) before
              (.failure (.arityMismatch c.arity 1)) framed) ∧
        ∀ c after, c.arity = 1 →
          Settles (fun levels => evaluate channel levels functional env) before (.success (.closure c)) after →
          ∃ g framed, after.Framed framed ∧ IsProxy framed.store g (.closure c) ∧ ∀ outcome last,
            Settles (fun levels => evaluate channel levels (.fix functional) env) before outcome last ↔
              Settles (fun levels => c.call channel levels [.closure g]) framed outcome last) ∧
    ∀ (g c : Closure) (v : Value) (before : Progress), IsProxy before.store g (.closure c) →
      ∃ g' framed, before.Framed framed ∧ IsProxy framed.store g' (.closure c) ∧
        (∀ levels, g.call channel (levels + 4) [v] before = (do
          let r ← c.call channel (levels + 1) [.closure g']
          r.call channel (levels + 3) (pure [v])) framed) ∧
        ∀ outcome last, Settles (fun levels => g.call channel levels [v]) before outcome last ↔
          Settles (fun levels => do
            let r ← c.call channel levels [.closure g']
            r.call channel levels (pure [v])) framed outcome last := by
  refine ⟨fun functional env => ⟨fun levels => evaluate_fix_run channel levels functional env, fun before => ?_⟩, ?_⟩
  · refine ⟨fun _ _ => settles_of_settles_fix, fun _ _ => settles_fix_of_failure, ?_, ?_, ?_⟩
    · intro u after other settles
      refine settles_fix_of_refusal settles fun levels g => ?_
      cases u with
      | closure c => exact absurd rfl (other c)
      | _ => rfl
    · intro c after arity settles
      refine settles_fix_of_refusal settles fun levels g => ?_
      have differs : [g].length ≠ c.arity := fun same => arity same.symm
      change c.call channel levels [g] = _
      rw [Closure.call, if_neg differs]
      rfl
    · intro c after _ settles
      exact settles_fix_iff_call settles
  · intro g c v before proxy
    exact settles_proxy_iff proxy v

/-- An environment that binds the names of the combinator itself. -/
def busyStore : Store :=
  Store.empty.push (.ofPairs [(lit "x", .atom (.number (.integer 7))), (lit "f", .atom (.number (.integer 8))),
    (lit "v", .atom (.number (.integer 9)))])

/-- What a functional becomes whose fixed point counts down and then gives what the environment binds. -/
def counting : Closure :=
  ⟨[lit "f"], .lambda [lit "n"] (.conditional (.unary (lit "zero?") (.var (lit "n"))) (.var (lit "x"))
    (.apply (.var (lit "f")) [.binary (lit "-") (.var (lit "n")) (.literal (.number (.integer 1)))])), [0]⟩

theorem fix_law_counting :
    Settles (fun levels => evaluate .silence levels (.fix (.var (lit "missing"))) [0]) (.start busyStore)
      (.failure (.unbound (lit "missing"))) (.start busyStore) ∧
    (∃ framed, (Progress.start busyStore).Framed framed ∧
      Settles (fun levels => evaluate .silence levels (.fix (.literal (.boolean true))) [0]) (.start busyStore)
        (.failure (.notCallable (.truth true))) framed) ∧
    (∃ framed, (Progress.start busyStore).Framed framed ∧
      Settles (fun levels => evaluate .silence levels (.fix (.lambda [] (.var (lit "x")))) [0]) (.start busyStore)
        (.failure (.arityMismatch 0 1)) framed) ∧
    ∃ g framed, IsProxy framed.store g (.closure counting) ∧
      (∀ outcome last,
        Settles (fun levels => evaluate .silence levels (.fix (.lambda counting.params counting.body)) [0])
            (.start busyStore) outcome last ↔
          Settles (fun levels => counting.call .silence levels [.closure g]) framed outcome last) ∧
      ∃ g' further, IsProxy further.store g' (.closure counting) ∧ ∀ outcome last,
        Settles (fun levels => g.call .silence levels [.truth true]) framed outcome last ↔
          Settles (fun levels => do
            let r ← counting.call .silence levels [.closure g']
            r.call .silence levels (pure [.truth true])) further outcome last := by
  obtain ⟨forms, proxies⟩ := fix_law .silence
  refine ⟨?_, ?_, ?_, ?_⟩
  · exact ((forms (.var (lit "missing")) [0]).2 (.start busyStore)).2.1 _ _ ⟨trivial, 1, rfl⟩
  · exact ((forms (.literal (.boolean true)) [0]).2 (.start busyStore)).2.2.1 _ _ (fun _ => nofun) ⟨trivial, 1, rfl⟩
  · exact ((forms (.lambda [] (.var (lit "x"))) [0]).2 (.start busyStore)).2.2.2.1 ⟨[], .var (lit "x"), [0]⟩ _
      (by decide) ⟨trivial, 1, rfl⟩
  · obtain ⟨g, framed, _, proxy, same⟩ :=
      ((forms (.lambda counting.params counting.body) [0]).2 (.start busyStore)).2.2.2.2 counting _ rfl
        ⟨trivial, 1, rfl⟩
    obtain ⟨g', further, _, renewed, _, again⟩ := proxies g counting (.truth true) framed proxy
    exact ⟨g, framed, proxy, same, g', further, renewed, again⟩

end CallByValue
