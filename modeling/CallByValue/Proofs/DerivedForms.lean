import CallByValue.Proofs.Budgets
import CallByValue.Proofs.OrderOfNames
import CallByValue.Proofs.Visits

/-!
# Derived forms

A binding of names is the call of a lambda with what the names are bound to, and a
sequence is the call of a lambda that returns its last argument. The forms and
these calls stop at the same part, say the same and end alike; a binding and its
call even make the same frame.
-/

namespace CallByValue

/-- The call that a binding of names stands for. -/
def Expr.letCall (bindings : List (Text × Expr)) (body : Expr) : Expr :=
  .apply (.lambda (bindings.map (·.1)) body) (bindings.map (·.2))

/-- The call that a sequence stands for, given a parameter for each item. -/
def Expr.sequenceCall (first : Text × Expr) (rest : List (Text × Expr)) : Expr :=
  .apply (.lambda ((first :: rest).map (·.1)) (.var (rest.getLastD first).1)) ((first :: rest).map (·.2))

namespace Eval

variable {α β γ : Type}

/-- What goes on alike wherever the first part succeeds goes on alike. -/
theorem bind_related {R : Outcome β × Progress → Outcome β × Progress → Prop} (refl : ∀ run, R run run) {m : Eval α}
    {rest rest' : α → Eval β} {before : Progress}
    (after : ∀ a now, m before = (.success a, now) → R (rest a now) (rest' a now)) :
    R ((m >>= rest) before) ((m >>= rest') before) := by
  cases run : m before with
  | mk outcome now =>
    cases outcome with
    | success a =>
      rw [bind_of_success run, bind_of_success run]
      exact after a now run
    | failure e =>
      rw [bind_of_failure run, bind_of_failure run]
      exact refl _
    | halted h =>
      rw [bind_of_halted run, bind_of_halted run]
      exact refl _

theorem bind_assoc (m : Eval α) (next : α → Eval β) (rest : β → Eval γ) :
    (m >>= next) >>= rest = m >>= fun a => next a >>= rest := by
  funext before
  rw [bind_apply, bind_apply, bind_apply]
  cases m before with
  | mk outcome now => cases outcome <;> rfl

theorem bind_pure (m : Eval α) : m >>= pure = m := by
  funext before
  rw [bind_apply]
  cases m before with
  | mk outcome now => cases outcome <;> rfl

theorem each_cons_bind (f : Expr → Eval Value) (e : Expr) (es : List Expr) (rest : List Value → Eval α) :
    each f (e :: es) >>= rest = f e >>= fun v => each f es >>= fun vs => rest (v :: vs) := by
  rw [each, bind_assoc]
  simp only [bind_assoc, pure_bind]

/-- The last of some expressions is taken once all of them have values. -/
theorem last_eq_each (f : Expr → Eval Value) (e : Expr) (es : List Expr) :
    last f e es = f e >>= fun v => each f es >>= fun vs => pure (vs.getLastD v) := by
  induction es generalizing e with
  | nil => exact (bind_pure (f e)).symm
  | cons next rest ih =>
    rw [last]
    simp only [ih, each_cons_bind, List.getLastD_cons]

theorem bind_eq_success_iff {m : Eval α} {rest : α → Eval β} {before after : Progress} {b : β} :
    (m >>= rest) before = (.success b, after) ↔
      ∃ a mid, m before = (.success a, mid) ∧ rest a mid = (.success b, after) := by
  cases run : m before with
  | mk outcome mid =>
    cases outcome with
    | success a => simp [bind_of_success run, and_assoc]
    | failure e => simp [bind_of_failure run]
    | halted h => simp [bind_of_halted run]

theorem length_of_each {f : Expr → Eval Value} {es : List Expr} {before after : Progress} {vs : List Value}
    (run : each f es before = (.success vs, after)) : vs.length = es.length := by
  induction es generalizing before vs with
  | nil => cases run; rfl
  | cons e es ih =>
    obtain ⟨v, mid, _, later⟩ := bind_eq_success_iff.mp run
    obtain ⟨ws, last, others, whole⟩ := bind_eq_success_iff.mp later
    cases whole
    rw [List.length_cons, List.length_cons, ih others]

end Eval

/-- Runs that are the same under all large budgets settle alike. -/
theorem Settles.of_eventually {α : Type} {run run' : Nat → Eval α} {before after : Progress} {outcome : Outcome α}
    (settles : Settles run before outcome after) (rising : Rising run) {least : Nat}
    (same : ∀ levels, least ≤ levels → run levels = run' levels) : Settles run' before outcome after := by
  obtain ⟨levels, enough, ends⟩ := settles.above rising least
  exact ⟨settles.1, levels, (congrFun (same levels enough) before).symm.trans ends⟩

theorem settles_of_endsLike {α : Type} {run run' : Nat → Eval α} {before : Progress} {outcome : Outcome α}
    {said : Array Expr} (alike : ∀ levels, EndsLike (run levels before) (run' levels before))
    (settles : ∃ after, after.said = said ∧ Settles run before outcome after) :
    ∃ after, after.said = said ∧ Settles run' before outcome after := by
  obtain ⟨after, rfl, completed, levels, ends⟩ := settles
  have same := alike levels
  rw [ends] at same
  exact ⟨(run' levels before).2, same.said.symm, completed, levels, Prod.ext same.outcome.symm rfl⟩

/-! ## Bindings of names -/

section
variable (channel : Channel) (levels : Nat) (env : Env)

/-- What the names are bound to is as much as the lambda takes. -/
theorem arity_of_bound {bindings : List (Text × Expr)} {values : List Value} {before now : Progress}
    (bound : evaluateEach channel levels (bindings.map (·.2)) env before = (.success values, now)) (body : Expr) :
    values.length = Closure.arity ⟨bindings.map (·.1), body, env⟩ := by
  rw [Eval.length_of_each bound, Closure.arity, List.length_map, List.length_map]

/-- With a level for the lambda, a call of it binds the parameters as a binding of names does. -/
theorem evaluate_letCall (bindings : List (Text × Expr)) (body : Expr) :
    evaluate channel (levels + 2) (.letCall bindings body) env =
      evaluate channel (levels + 2) (.letIn bindings body) env := by
  funext before
  rw [Expr.letCall, evaluate_apply, evaluate_lambda, Eval.pure_bind, evaluate_letIn]
  refine Eval.bind_related (fun _ => rfl) fun values now bound => ?_
  exact Closure.call_of_arity channel (levels + 1) (arity_of_bound channel (levels + 1) env bound body) now

theorem letIn_endsLike_letCall (bindings : List (Text × Expr)) (body : Expr) (before : Progress) :
    EndsLike (evaluate channel levels (.letIn bindings body) env before)
      (evaluate channel levels (.letCall bindings body) env before) := by
  match levels with
  | 0 => exact .refl _
  | 1 =>
    -- Without a level for its parts either form is stopped at the first of them.
    cases bindings with
    | nil => exact ⟨rfl, rfl⟩
    | cons binding rest => exact ⟨rfl, rfl⟩
  | levels + 2 =>
    rw [evaluate_letCall]
    exact .refl _

/-- A binding of names and its call make one frame of the same bindings over the same environment. -/
theorem opens_letIn_iff {bindings : List (Text × Expr)} {body inner : Expr} {before now : Progress} {outer : Env}
    {table : Table Value} :
    (∃ o, Visit.Opens channel ⟨levels + 2, .letIn bindings body, env, before⟩ o ∧
        o.outer = outer ∧ o.body = inner ∧ o.table = table ∧ o.before = now) ↔
      ∃ o, Visit.Opens channel ⟨levels + 2, .letCall bindings body, env, before⟩ o ∧
        o.outer = outer ∧ o.body = inner ∧ o.table = table ∧ o.before = now := by
  constructor
  · rintro ⟨o, opens, rfl, rfl, rfl, rfl⟩
    cases opens with
    | letIn bound =>
      exact ⟨_, .call rfl bound (arity_of_bound channel (levels + 1) env bound body), rfl, rfl, rfl, rfl⟩
  · rintro ⟨o, opens, rfl, rfl, rfl, rfl⟩
    cases opens with
    | call called given arity =>
      cases called
      exact ⟨_, .letIn given, rfl, rfl, rfl, rfl⟩

theorem settles_letIn_iff {bindings : List (Text × Expr)} {body : Expr} {before after : Progress}
    {outcome : Outcome Value} :
    Settles (fun levels => evaluate channel levels (.letIn bindings body) env) before outcome after ↔
      Settles (fun levels => evaluate channel levels (.letCall bindings body) env) before outcome after := by
  have same : ∀ levels, 2 ≤ levels →
      evaluate channel levels (.letIn bindings body) env = evaluate channel levels (.letCall bindings body) env := by
    intro levels enough
    obtain ⟨levels, rfl⟩ := Nat.exists_eq_add_of_le' enough
    exact (evaluate_letCall channel levels env bindings body).symm
  exact ⟨fun settles => settles.of_eventually (rising_evaluate channel _ env) same,
    fun settles => settles.of_eventually (rising_evaluate channel _ env) fun levels enough => (same levels enough).symm⟩

end

/-! ## Sequences -/

/-- The last of the pairs shows. -/
theorem Table.find?_ofPairs_of_getLast? {α : Type} {pairs : List (Text × α)} {name : Text} {entry : α}
    (last : pairs.getLast? = some (name, entry)) : (ofPairs pairs).find? name = some entry := by
  obtain ⟨others, rfl⟩ := List.getLast?_eq_some_iff.mp last
  exact find?_ofPairs_last others List.not_mem_nil entry

theorem getLast?_zip (first : Text × Expr) {rest : List (Text × Expr)} (v : Value) {vs : List Value}
    (same : vs.length = rest.length) :
    (((first :: rest).map (·.1)).zip (v :: vs)).getLast? = some ((rest.getLastD first).1, vs.getLastD v) := by
  induction rest generalizing first v vs with
  | nil =>
    obtain rfl := List.length_eq_zero_iff.mp same
    rfl
  | cons next rest ih =>
    cases vs with
    | nil => cases same
    | cons w ws =>
      rw [List.getLastD_cons, List.getLastD_cons, ← ih next w (Nat.succ.inj same)]
      rfl

/-- The lambda that a sequence is called as returns the last of its arguments. -/
theorem call_last (channel : Channel) (levels : Nat) {first : Text × Expr} {rest : List (Text × Expr)} (env : Env)
    {v : Value} {vs : List Value} (same : vs.length = rest.length) (now : Progress) :
    EndsLike (.success (vs.getLastD v), now)
      (Closure.call channel (levels + 1) ⟨(first :: rest).map (·.1), .var (rest.getLastD first).1, env⟩ (v :: vs)
        now) := by
  have arity : (v :: vs).length = Closure.arity ⟨(first :: rest).map (·.1), .var (rest.getLastD first).1, env⟩ := by
    simp [Closure.arity, same]
  have found := Table.find?_ofPairs_of_getLast? (getLast?_zip first v same)
  rw [Closure.call_of_arity channel (levels + 1) arity now]
  rw [evaluate_var_of_lookup channel levels _ (Store.lookup_push_of_find? found now.store env)]
  exact ⟨rfl, rfl⟩

theorem sequence_endsLike_sequenceCall (channel : Channel) (levels : Nat) (first : Text × Expr)
    (rest : List (Text × Expr)) (env : Env) (before : Progress) :
    EndsLike (evaluate channel levels (.sequence first.2 (rest.map (·.2))) env before)
      (evaluate channel levels (.sequenceCall first rest) env before) := by
  match levels with
  | 0 => exact .refl _
  | 1 => cases rest <;> exact ⟨rfl, rfl⟩
  | levels + 2 =>
    rw [evaluate_sequence, Eval.last_eq_each, Expr.sequenceCall, evaluate_apply, evaluate_lambda, Eval.pure_bind]
    have arguments := Eval.each_cons_bind (fun e => evaluate channel (levels + 1) e env) first.2 (rest.map (·.2))
      (Closure.call channel (levels + 1) ⟨(first :: rest).map (·.1), .var (rest.getLastD first).1, env⟩)
    refine Eq.subst (motive := EndsLike _) (congrFun arguments before).symm ?_
    refine Eval.bind_related .refl fun v mid _ => Eval.bind_related .refl fun vs now others => ?_
    exact call_last channel levels env ((Eval.length_of_each others).trans (List.length_map _)) now

/-- A sequence comes to an outcome, some things being said, exactly if its call does. -/
theorem settles_sequence_iff (channel : Channel) {first : Text × Expr} {rest : List (Text × Expr)} {env : Env}
    {before : Progress} {outcome : Outcome Value} {said : Array Expr} :
    (∃ after, after.said = said ∧
        Settles (fun levels => evaluate channel levels (.sequence first.2 (rest.map (·.2))) env) before outcome after) ↔
      ∃ after, after.said = said ∧
        Settles (fun levels => evaluate channel levels (.sequenceCall first rest) env) before outcome after := by
  have alike := fun levels => sequence_endsLike_sequenceCall channel levels first rest env before
  exact ⟨settles_of_endsLike alike, settles_of_endsLike fun levels => (alike levels).symm⟩

/-- Bindings of names and sequences are derived forms. Under every budget they end like the calls that they stand
    for and say the same, and one completes exactly if the other does. The body of a binding of names runs in the frame
    that the call makes: the same bindings over the same environment. -/
theorem binding_and_sequence_as_calls (channel : Channel) :
    (∀ (bindings : List (Text × Expr)) (body : Expr) (env : Env) (before : Progress),
      (∀ levels, EndsLike (evaluate channel levels (.letIn bindings body) env before)
        (evaluate channel levels (.letCall bindings body) env before)) ∧
      (∀ levels outer inner table now,
        (∃ o, Visit.Opens channel ⟨levels + 2, .letIn bindings body, env, before⟩ o ∧
            o.outer = outer ∧ o.body = inner ∧ o.table = table ∧ o.before = now) ↔
          ∃ o, Visit.Opens channel ⟨levels + 2, .letCall bindings body, env, before⟩ o ∧
            o.outer = outer ∧ o.body = inner ∧ o.table = table ∧ o.before = now) ∧
      ∀ outcome after,
        Settles (fun levels => evaluate channel levels (.letIn bindings body) env) before outcome after ↔
          Settles (fun levels => evaluate channel levels (.letCall bindings body) env) before outcome after) ∧
    ∀ (first : Text × Expr) (rest : List (Text × Expr)) (env : Env) (before : Progress),
      (∀ levels, EndsLike (evaluate channel levels (.sequence first.2 (rest.map (·.2))) env before)
        (evaluate channel levels (.sequenceCall first rest) env before)) ∧
      ∀ outcome said,
        (∃ after, after.said = said ∧ Settles
            (fun levels => evaluate channel levels (.sequence first.2 (rest.map (·.2))) env) before outcome after) ↔
          ∃ after, after.said = said ∧
            Settles (fun levels => evaluate channel levels (.sequenceCall first rest) env) before outcome after := by
  refine ⟨fun bindings body env before => ⟨fun levels => ?_, fun levels outer inner table now => ?_,
    fun outcome after => ?_⟩, fun first rest env before => ⟨fun levels => ?_, fun outcome said => ?_⟩⟩
  · exact letIn_endsLike_letCall channel levels env bindings body before
  · exact opens_letIn_iff channel levels env
  · exact settles_letIn_iff channel env
  · exact sequence_endsLike_sequenceCall channel levels first rest env before
  · exact settles_sequence_iff channel

end CallByValue
