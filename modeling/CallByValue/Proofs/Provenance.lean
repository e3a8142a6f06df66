import CallByValue.Proofs.Provisions

/-!
# Where code comes from

No code is made up during a run. What is said, what is quoted and what closures are
made of stands in the expression that is evaluated or in a closure that could be
reached before, but for the combinator that `fix` brings along.
-/

namespace CallByValue

namespace Store

variable (store : Store) (env : Env) (e : Expr)

/-- A part stands in an expression or in the body of a closure that can be reached from an environment, outside
    everything that `say` says there. -/
def Contains (part : Expr) : Prop := part.StandsIn e ∨ ∃ c, store.Reaches env c ∧ part.StandsIn c.body

/-- The code of a run: what is written, the combinator with all that it is made of, and the combinator applied to a
    functional that is written. -/
inductive HasCode : Expr → Prop
  | written {part} (stands : store.Contains env e part) : HasCode part
  | combinator {part} (stands : part.StandsIn .combinator) : HasCode part
  | unrolled {functional} (stands : store.Contains env e (.fix functional)) : HasCode (.fixedPoint functional)

/-- A function of a run: a lambda that is written, one that the combinator is made of, or one that could be reached
    already. -/
inductive HasLambda : List Text → Expr → Prop
  | written {params body} (stands : store.Contains env e (.lambda params body)) : HasLambda params body
  | combinator {params body} (stands : (Expr.lambda params body).StandsIn .combinator) : HasLambda params body
  | reached {c} (reached : store.Reaches env c) : HasLambda c.params c.body

/-- A quoted expression of a run: what a `say` says that is written, or one that could be reached already. -/
inductive HasQuoted : Expr → Prop
  | said {operand} (stands : store.Contains env e operand.saying) : HasQuoted operand
  | held {operand} (held : store.Holds env (.quoted operand)) : HasQuoted operand

/-- A value whose code can be told from where it comes. -/
def Accounts : Value → Prop
  | .atom _ => True
  | .closure c => store.HasLambda env e c.params c.body
  | .quoted operand => store.HasQuoted env e operand

variable {store env e}

theorem Contains.inside {whole part : Expr} (contains : store.Contains env e whole) (member : part ∈ whole.inside) :
    store.Contains env e part := by
  rcases contains with stands | ⟨c, reached, stands⟩
  · exact .inl ((Expr.standsIn_of_mem member).trans stands)
  · exact .inr ⟨c, reached, (Expr.standsIn_of_mem member).trans stands⟩

/-- The combinator neither says anything nor takes a fixed point itself. -/
theorem HasCode.contains {part : Expr} (code : store.HasCode env e part)
    (form : (∃ operand, part = Expr.saying operand) ∨ ∃ functional, part = .fix functional) :
    store.Contains env e part := by
  cases code with
  | written stands => exact stands
  | combinator stands =>
    rcases form with ⟨_, rfl⟩ | ⟨_, rfl⟩ <;>
      rcases Expr.form_of_standsIn_combinator stands with ⟨_, same⟩ | ⟨_, _, same⟩ | ⟨_, _, same⟩ <;> cases same
  | unrolled => rcases form with ⟨_, same⟩ | ⟨_, same⟩ <;> cases same

theorem HasCode.inside {whole part : Expr} (code : store.HasCode env e whole) (member : part ∈ whole.inside) :
    store.HasCode env e part := by
  cases code with
  | written stands => exact .written (stands.inside member)
  | combinator stands => exact .combinator ((Expr.standsIn_of_mem member).trans stands)
  | @unrolled functional stands =>
    rw [Expr.fixedPoint_eq] at member
    rcases List.mem_cons.mp member with rfl | argument
    · exact .combinator (.refl _)
    · obtain rfl := List.mem_singleton.mp argument
      exact .written (stands.inside List.mem_cons_self)

variable (store env e)

/-- What is written provides for the run. -/
def provision : Provision where
  code := store.HasCode env e
  function := store.HasLambda env e
  said operand := store.Contains env e operand.saying
  atom _ := True
  quoted := store.HasQuoted env e
  tolerates _ := True
  inside := HasCode.inside
  unrolled code := .unrolled (code.contains (.inr ⟨_, rfl⟩))
  lambda code := by
    generalize same : Expr.lambda _ _ = whole at code
    cases code with
    | written stands => exact .written (same ▸ stands)
    | combinator stands => exact .combinator (same ▸ stands)
    | unrolled => cases same
  called {params body} function := by
    have member : body ∈ (Expr.lambda params body).inside := List.mem_cons_self
    cases function with
    | written stands => exact .written (stands.inside member)
    | combinator stands => exact .combinator ((Expr.standsIn_of_mem member).trans stands)
    | reached reached => exact .written (.inr ⟨_, reached, .refl _⟩)
  spoken code := by
    have written := code.contains (.inl ⟨_, rfl⟩)
    exact ⟨written, .said written⟩
  literal _ := trivial
  truth _ := trivial
  computed _ _ _ _ _ := trivial
  faulty _ _ _ _ _ := trivial

end Store

section
variable {channel : Channel} {levels : Nat} {e : Expr} {env : Env} {before : Progress}

/-- What is written, said and made by a visit of a run, seen from the beginning of the run. -/
theorem Visit.provided {v : Visit} (reached : Visit.LeadsTo channel ⟨levels, e, env, before⟩ v) :
    before.store.HasCode env e v.expr ∧
      (before.store.provision env e).Covers (before.store.Watches env) before.said.toList (v.run channel).2 ∧
      (v.run channel).1.Satisfies ((before.store.provision env e).Provides (before.store.Watches env))
        ((before.store.provision env e).Permits (before.store.Watches env)) := by
  have covers : (before.store.provision env e).Covers (before.store.Watches env) before.said.toList before := by
    refine Provision.covers_of_holds fun v held => ?_
    cases v with
    | atom a => trivial
    | closure c => exact ⟨.reached (Store.holds_closure_iff.mp held), fun _ _ => trivial⟩
    | quoted operand => exact .held held
  have admitted : (before.store.provision env e).Admits (before.store.Watches env) env e :=
    ⟨.written (.inl (.refl e)), fun _ inside => .inr (.inl inside)⟩
  obtain ⟨⟨_, code⟩, ends⟩ := covers.reached admitted reached
  exact ⟨code.1, ends⟩

theorem Store.accounts_of_provides {store : Store} {watched : Nat → Prop} {v : Value}
    (provided : (store.provision env e).Provides watched v) : store.Accounts env e v := by
  cases v with
  | closure c => exact provided.1
  | _ => exact provided

end

/-- No code is made up at run time. Everything that is said is what some `say` says that is written in the expression
    or in a closure that could be reached; every quoted expression that comes out or goes into a frame is so too, or
    could be reached already; every closure that comes out or goes into a frame is made of a lambda that is written,
    of one that a fixed point unrolls to, or of one that could be reached already. All that is visited is written, or
    unrolled from what is, so that nothing quoted is ever evaluated. -/
theorem evaluate_makes_no_code (channel : Channel) (levels : Nat) (e : Expr) (env : Env) (before : Progress) :
    let outcome := (evaluate channel levels e env before).1
    let after := (evaluate channel levels e env before).2
    (∃ more, after.said.toList = before.said.toList ++ more ∧
      ∀ operand ∈ more, before.store.Contains env e operand.saying) ∧
    (∀ v, outcome.carried? = some v → before.store.Accounts env e v) ∧
    (∀ frame, before.store.frames.size ≤ frame → ∀ name v, (after.store.bindings frame).find? name = some v →
      before.store.Accounts env e v) ∧
    ∀ v, Visit.LeadsTo channel ⟨levels, e, env, before⟩ v → before.store.HasCode env e v.expr := by
  intro outcome after
  have itself : Visit.LeadsTo channel ⟨levels, e, env, before⟩ ⟨levels, e, env, before⟩ := .refl
  obtain ⟨_, last, satisfied⟩ := Visit.provided itself
  refine ⟨last.emitted, fun v carried => ?_, fun frame new name v found => ?_, fun v reached => ?_⟩
  · exact Store.accounts_of_provides (Provision.provides_of_carried? satisfied carried)
  · exact Store.accounts_of_provides (last.entries frame (.inl new) name v found)
  · exact (Visit.provided reached).1

end CallByValue
