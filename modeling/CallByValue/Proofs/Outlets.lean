import CallByValue.Proofs.Soundness

/-!
# Outlets

What arrives where `say` sends expressions: nothing is kept, or the expressions
are listed, or they are written as lines. An outlet only listens. It may stop an
evaluation by being unable to write a line, and then has written none of it, but
what it holds is never looked at.
-/

namespace CallByValue

/-- A channel with what has arrived there so far. -/
inductive Outlet where
  | silence
  | recorder (said : List Expr)
  | console (written : Text)

namespace Outlet

def channel : Outlet → Channel
  | silence => .silence
  | recorder _ => .recorder
  | console _ => .console

/-- Takes an expression. The console makes the whole line before it writes any of it. -/
def emit (levels : Nat) : Outlet → Expr → Except Halt Outlet
  | silence, _ => .ok silence
  | recorder said, e => .ok (recorder (said ++ [e]))
  | console written, e => (e.render levels).map fun line => console (written ++ (line ++ lit "\n"))

/-- Takes expressions in order, up to the first that it cannot take. -/
def emitAll (levels : Nat) : Outlet → List Expr → Except Halt Outlet := List.foldlM (emit levels)

/-- What an outlet holds once it has taken some expressions. -/
def after : Outlet → List Expr → Outlet
  | silence, _ => silence
  | recorder said, more => recorder (said ++ more)
  | console written, more => console (written ++ Channel.stream more)

variable {levels : Nat}

theorem channel_after (outlet : Outlet) (said : List Expr) : (outlet.after said).channel = outlet.channel := by
  cases outlet <;> rfl

theorem emit_of_taken {outlet : Outlet} {e : Expr} (taken : outlet.channel.obstacle? levels e = none) :
    outlet.emit levels e = .ok (outlet.after [e]) := by
  cases outlet with
  | console written =>
    have free : e.obstacle? levels = none := taken
    simp [emit, after, Channel.stream, Expr.render, free, Except.map]
  | _ => rfl

theorem emit_of_refused {outlet : Outlet} {e : Expr} {h : Halt} (refused : outlet.channel.obstacle? levels e = some h) :
    outlet.emit levels e = .error h := by
  cases outlet with
  | console written =>
    have stopped : e.obstacle? levels = some h := refused
    simp [emit, Expr.render, stopped, Except.map]
  | _ => cases refused

/-- Evaluation says an expression by giving it to the outlet, and stops where the outlet does. -/
theorem say_eq_emit (outlet : Outlet) (levels : Nat) (e : Expr) (before : Progress) :
    Eval.say outlet.channel levels e before =
      match outlet.emit levels e with
      | .ok _ => (.success (.quoted e), before.tell e)
      | .error h => (.halted h, before) := by
  rw [Eval.say_apply]
  cases taken : outlet.channel.obstacle? levels e with
  | none => rw [emit_of_taken taken]
  | some h => rw [emit_of_refused taken]

theorem after_cons (outlet : Outlet) (e : Expr) (more : List Expr) :
    (outlet.after [e]).after more = outlet.after (e :: more) := by
  cases outlet <;> simp [after, Channel.stream]

/-- An outlet that can take each of some expressions takes all of them. -/
theorem emitAll_of_taken {outlet : Outlet} {said : List Expr}
    (taken : ∀ e ∈ said, outlet.channel.obstacle? levels e = none) :
    outlet.emitAll levels said = .ok (outlet.after said) := by
  induction said generalizing outlet with
  | nil => cases outlet <;> simp [emitAll, after, Channel.stream, pure, Except.pure]
  | cons e more ih =>
    have first := emit_of_taken (taken e List.mem_cons_self)
    have others : ∀ x ∈ more, (outlet.after [e]).channel.obstacle? levels x = none := by
      rw [channel_after]
      exact fun x member => taken x (List.mem_cons_of_mem _ member)
    calc outlet.emitAll levels (e :: more)
        = (outlet.emit levels e >>= fun next => next.emitAll levels more) := rfl
      _ = (outlet.after [e]).emitAll levels more := by rw [first]; rfl
      _ = .ok (outlet.after (e :: more)) := by rw [ih others, after_cons]

end Outlet

/-! ## What outlets hear of a run -/

theorem Channel.narrower_recorder (channel : Channel) : channel.Narrower .recorder := by
  intro never
  cases never

theorem Expr.mapM_render_of_obstacle? {levels : Nat} {said : List Expr}
    (free : ∀ x ∈ said, x.obstacle? levels = none) :
    said.mapM (Expr.render levels) = .ok (said.map Expr.text) := by
  induction said with
  | nil => rfl
  | cons x more ih =>
    have first : x.render levels = .ok x.text := by rw [Expr.render, free x List.mem_cons_self]
    rw [List.mapM_cons, first, ih fun y member => free y (List.mem_cons_of_mem _ member)]
    rfl

section
variable {narrow wide : Channel} {levels more : Nat}

theorem Eval.Trail.left_toList {α : Type} {allowed : Expr → Prop} {spoken : Array Expr}
    {run run' : Outcome α × Progress} {said said' : List Expr}
    (trail : Trail allowed #[] spoken run run' said said') : run.2.said.toList = said := by
  simp [trail.left]

theorem Eval.Trail.right_toList {α : Type} {allowed : Expr → Prop} {spoken : Array Expr}
    {run run' : Outcome α × Progress} {said said' : List Expr}
    (trail : Trail allowed spoken #[] run run' said said') : run'.2.said.toList = said' := by
  simp [trail.right]

/-- A run says only what its channel can take. -/
theorem obstacle?_of_said (channel : Channel) (levels : Nat) (e : Expr) (env : Env) (store : Store) :
    ∀ x ∈ (evaluate channel levels e env (.start store)).2.said.toList, channel.obstacle? levels x = none := by
  obtain ⟨said, _, trail⟩ := evaluate_trails id (Nat.le_refl levels) e env store #[] #[]
  have spoken : (evaluate channel levels e env (.start store)).2.said.toList = said := trail.left_toList
  rw [spoken]
  exact trail.allows

/-- Whatever a run says, whether it completes or not, the outlet that it says it to takes. -/
theorem emitAll_evaluate (outlet : Outlet) (levels : Nat) (e : Expr) (env : Env) (store : Store) :
    outlet.emitAll levels (evaluate outlet.channel levels e env (.start store)).2.said.toList =
      .ok (outlet.after (evaluate outlet.channel levels e env (.start store)).2.said.toList) :=
  Outlet.emitAll_of_taken (obstacle?_of_said outlet.channel levels e env store)

theorem evaluate_eq_of_completed {channel channel' : Channel} {e : Expr} {env : Env} {before : Progress}
    (completed : (evaluate channel levels e env before).1.Completed)
    (completed' : (evaluate channel' levels e env before).1.Completed) :
    evaluate channel' levels e env before = evaluate channel levels e env before := by
  have recorded := (evaluate_trails channel.narrower_recorder (Nat.le_refl levels) e env).below before completed
  have recorded' := (evaluate_trails channel'.narrower_recorder (Nat.le_refl levels) e env).below before completed'
  exact recorded'.symm.trans recorded

/-- Runs that both complete are the same run, whatever the channels and the levels granted. -/
theorem evaluate_eq_of_completed_within {channel channel' : Channel} {e : Expr} {env : Env} {before : Progress}
    (completed : (evaluate channel levels e env before).1.Completed)
    (completed' : (evaluate channel' more e env before).1.Completed) :
    evaluate channel' more e env before = evaluate channel levels e env before := by
  have wider := evaluate_below channel (Nat.le_max_left levels more) e env before completed
  have wider' := evaluate_below channel' (Nat.le_max_right levels more) e env before completed'
  rw [← wider, ← wider']
  exact evaluate_eq_of_completed (wider ▸ completed) (wider' ▸ completed')

/-- What one run says that is cut short is the beginning of what another run of the same program says, through a
    channel that takes as much: the budgets may differ either way. -/
theorem said_prefix_of_completed (narrower : narrow.Narrower wide) (e : Expr) (env : Env) (store : Store)
    (completed : (evaluate wide more e env (.start store)).1.Completed) :
    (evaluate narrow levels e env (.start store)).2.said.toList <+:
      (evaluate wide more e env (.start store)).2.said.toList := by
  have larger := evaluate_below wide (Nat.le_add_left more levels) e env (.start store) completed
  obtain ⟨said, said', trail⟩ := evaluate_trails narrower (Nat.le_add_right levels more) e env store #[] #[]
  have left : (evaluate narrow levels e env (.start store)).2.said.toList = said := trail.left_toList
  have right : (evaluate wide (levels + more) e env (.start store)).2.said.toList = said' := trail.right_toList
  rw [← larger, left, right]
  exact trail.behind

end

/-- The three channels agree. What is said never has a say in what comes of a run: runs that complete through
    different channels are the same run, with the outcome, the emissions and the store that the rules of the
    language give. The recorder lists the emissions behind what it held before. The console writes a line for each
    of them, and only whole lines: a run that is cut short anywhere, in the writing of a line too, has written the
    lines of the first emissions of any completing run. -/
theorem channels_agree (frames : Nat) (e : Expr) (env : Env) (store : Store) :
    let run (channel : Channel) (frames : Nat) := evaluate channel (levels frames) e env (.start store)
    let emissions (channel : Channel) (frames : Nat) := (run channel frames).2.said.toList
    (∀ channel channel', (run channel frames).1.Completed → (run channel' frames).1.Completed →
      run channel' frames = run channel frames ∧
        Derives store env e (run channel frames).1 (emissions channel frames) (run channel frames).2.store) ∧
    (∀ (outlet : Outlet) (levels : Nat) (x : Expr) (before : Progress),
      Eval.say outlet.channel levels x before =
        match outlet.emit levels x with
        | .ok _ => (.success (.quoted x), before.tell x)
        | .error h => (.halted h, before)) ∧
    Outlet.silence.emitAll (levels frames) (emissions .silence frames) = .ok .silence ∧
    (∀ said, (Outlet.recorder said).emitAll (levels frames) (emissions .recorder frames) =
      .ok (.recorder (said ++ emissions .recorder frames))) ∧
    (∀ written, ∃ lines, (emissions .console frames).mapM (Expr.render (levels frames)) = .ok lines ∧
      (Outlet.console written).emitAll (levels frames) (emissions .console frames) =
        .ok (.console (written ++ lines.flatMap fun line => line ++ lit "\n"))) ∧
    ∀ h frames', (run .console frames).1 = .halted h → (run .recorder frames').1.Completed →
      emissions .console frames <+: emissions .recorder frames' := by
  intro run emissions
  refine ⟨fun channel channel' completed completed' => ?_, Outlet.say_eq_emit, ?_, ?_, ?_, ?_⟩
  · obtain ⟨said, derives, told, _⟩ := evaluate_follows channel (levels frames) e env _ completed
    have spoken : emissions channel frames = said := by
      change (run channel frames).2.said.toList = said
      rw [told]
      simp [Progress.start]
    exact ⟨evaluate_eq_of_completed completed completed', spoken ▸ derives⟩
  · exact emitAll_evaluate .silence (levels frames) e env store
  · exact fun said => emitAll_evaluate (.recorder said) (levels frames) e env store
  · intro written
    refine ⟨(emissions .console frames).map Expr.text, ?_, ?_⟩
    · exact Expr.mapM_render_of_obstacle? (obstacle?_of_said .console (levels frames) e env store)
    · rw [List.flatMap_map]
      exact emitAll_evaluate (.console written) (levels frames) e env store
  · intro _ frames' _ completed
    exact said_prefix_of_completed (Channel.narrower_recorder _) e env store completed

/-- Says something shallow and then something deeper. -/
def shallowThenDeep : Expr :=
  .sequence (.unary (lit "say") (.var (lit "x"))) [.unary (lit "say") (.fix (.fix (.var (lit "x"))))]

/-- With six frames the second line is begun but not written, with twelve both are. -/
theorem channels_agree_shallow_then_deep :
    (evaluate .console (levels 12) shallowThenDeep [] (.start .empty) =
        evaluate .silence (levels 12) shallowThenDeep [] (.start .empty)) ∧
      (evaluate .console (levels 6) shallowThenDeep [] (.start .empty)).1 = .halted .stackExhausted ∧
      (Outlet.console []).emitAll (levels 6)
          (evaluate .console (levels 6) shallowThenDeep [] (.start .empty)).2.said.toList = .ok (.console (lit "x\n")) ∧
      (evaluate .console (levels 6) shallowThenDeep [] (.start .empty)).2.said.toList <+:
        (evaluate .recorder (levels 12) shallowThenDeep [] (.start .empty)).2.said.toList := by
  have complete := channels_agree 12 shallowThenDeep [] .empty
  have cut := channels_agree 6 shallowThenDeep [] .empty
  have halted : (evaluate .console (levels 6) shallowThenDeep [] (.start .empty)).1 = .halted .stackExhausted := rfl
  refine ⟨(complete.1 .silence .console trivial trivial).1, halted, ?_, ?_⟩
  · obtain ⟨lines, written, heard⟩ := cut.2.2.2.2.1 []
    rw [heard]
    cases written
    rfl
  · exact cut.2.2.2.2.2 .stackExhausted 12 halted trivial

end CallByValue
