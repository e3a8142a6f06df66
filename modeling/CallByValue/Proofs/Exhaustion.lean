import CallByValue.Proofs.Budgets
import CallByValue.Proofs.Visits

/-!
# Exhaustion

Where the host stops an evaluation, and that nothing goes on from there: a visit
is stopped exactly when it leads to one that has no levels left, or cannot write
what it says, or cannot compare two values. What a larger budget adds is only what
comes behind that point.
-/

namespace CallByValue

theorem Eval.bind_eq_halted_iff {α β : Type} {m : Eval α} {rest : α → Eval β} {before after : Progress} {h : Halt} :
    (m >>= rest) before = (.halted h, after) ↔
      m before = (.halted h, after) ∨ ∃ a now, m before = (.success a, now) ∧ rest a now = (.halted h, after) := by
  cases run : m before with
  | mk outcome now =>
    cases outcome with
    | success a => simp [Eval.bind_of_success run, and_assoc]
    | failure e => simp [Eval.bind_of_failure run]
    | halted h' => simp [Eval.bind_of_halted run]

/-- Of the operators only equality is ever stopped, by values too deep to be compared. -/
theorem BinaryOperator.apply_eq_halted_iff {op : BinaryOperator} {mark levels : Nat} {a b : Value} {h : Halt} :
    op.apply mark levels a b = .halted h ↔ op = .equal ∧ canCompare levels a b = false ∧ h = .stackExhausted := by
  cases op with
  | equal =>
    cases granted : canCompare levels a b <;> simp [apply, arithmetic?, granted, eq_comm]
  | _ =>
    simp only [apply, arithmetic?, reduceCtorEq, false_and, iff_false]
    split
    · exact nofun
    · exact nofun
    · split <;> exact nofun

namespace Visit

variable {channel : Channel} {levels : Nat} {env : Env}

/-- A visit is stopped by itself, not by a part: no levels are left, the channel does not take what is said, or two
    values are too deep to be compared. -/
inductive Stops (channel : Channel) : Visit → Halt → Progress → Prop where
  | exhausted {e env before} : Stops channel ⟨0, e, env, before⟩ .stackExhausted before
  | untold {levels glyph operand env before h} (known : UnaryOperator.ofGlyph? glyph = some .say)
      (refused : channel.obstacle? levels operand = some h) :
      Stops channel ⟨levels + 1, .unary glyph operand, env, before⟩ h before
  | tooDeep {levels glyph left right env before a now b after} (known : BinaryOperator.ofGlyph? glyph = some .equal)
      (first : evaluate channel levels left env before = (.success a, now))
      (second : evaluate channel levels right env now = (.success b, after))
      (deep : BinaryOperator.canCompare levels a b = false) :
      Stops channel ⟨levels + 1, .binary glyph left right, env, before⟩ .stackExhausted after.tick

variable {h : Halt} {after : Progress}

/-- Expressions visited in order are stopped where one of them is. -/
theorem each_eq_halted_iff {es : List Expr} {now : Progress} :
    evaluateEach channel levels es env now = (.halted h, after) ↔
      ∃ w, InOrder channel levels env es now w ∧ w.run channel = (.halted h, after) := by
  constructor
  · intro stopped
    induction es generalizing now with
    | nil => cases stopped
    | cons e es ih =>
      rcases Eval.bind_eq_halted_iff.mp stopped with here | ⟨v, mid, first, later⟩
      · exact ⟨_, .here, here⟩
      · rcases Eval.bind_eq_halted_iff.mp later with there | ⟨_, _, _, none⟩
        · obtain ⟨w, visited, halted⟩ := ih there
          exact ⟨w, .later first visited, halted⟩
        · cases none
  · rintro ⟨w, visited, stopped⟩
    induction visited with
    | here => exact Eval.bind_of_halted stopped _
    | later first _ ih =>
      refine (Eval.bind_of_success first _).trans ?_
      exact Eval.bind_of_halted (ih stopped) _

/-- A sequence is stopped where one of its items is. -/
theorem last_eq_halted_iff {first : Expr} {rest : List Expr} {now : Progress} :
    Eval.last (fun e => evaluate channel levels e env) first rest now = (.halted h, after) ↔
      ∃ w, InOrder channel levels env (first :: rest) now w ∧ w.run channel = (.halted h, after) := by
  induction rest generalizing first now with
  | nil =>
    constructor
    · exact fun stopped => ⟨_, .here, stopped⟩
    · rintro ⟨w, visited, stopped⟩
      cases visited with
      | here => exact stopped
      | later _ none => cases none
  | cons e es ih =>
    constructor
    · intro stopped
      rcases Eval.bind_eq_halted_iff.mp stopped with here | ⟨v, mid, run, later⟩
      · exact ⟨_, .here, here⟩
      · obtain ⟨w, visited, halted⟩ := ih.mp later
        exact ⟨w, .later run visited, halted⟩
    · rintro ⟨w, visited, stopped⟩
      cases visited with
      | here => exact Eval.bind_of_halted stopped _
      | later run others => exact (Eval.bind_of_success run _).trans (ih.mpr ⟨w, others, stopped⟩)

/-- Whatever stops a part stops the visit. -/
theorem halted_of_part {v w : Visit} (part : Part channel v w) (stopped : w.run channel = (.halted h, after)) :
    v.run channel = (.halted h, after) := by
  cases part with
  | binary known operand =>
    rw [run_binary known]
    cases operand with
    | here => exact Eval.bind_of_halted stopped _
    | later first others =>
      refine (Eval.bind_of_success first _).trans ?_
      cases others with
      | here => exact Eval.bind_of_halted stopped _
      | later _ none => cases none
  | @unary levels glyph op operand env before known other =>
    change evaluate channel (levels + 1) _ env before = _
    rw [evaluate_unary, known]
    cases op with
    | say => exact absurd rfl other
    | not => exact Eval.bind_of_halted stopped _
    | isZero => exact Eval.bind_of_halted stopped _
  | test => exact Eval.bind_of_halted stopped _
  | branch tested =>
    refine (Eval.bind_of_success tested _).trans ?_
    split
    · next truth => rwa [if_pos truth] at stopped
    · next truth => rwa [if_neg truth] at stopped
  | callee => exact Eval.bind_of_halted stopped _
  | argument called argument =>
    refine (Eval.bind_of_success called _).trans ?_
    exact Eval.bind_of_halted (each_eq_halted_iff.mpr ⟨_, argument, stopped⟩) _
  | bound bound => exact Eval.bind_of_halted (each_eq_halted_iff.mpr ⟨_, bound, stopped⟩) _
  | item item => exact last_eq_halted_iff.mpr ⟨_, item, stopped⟩
  | fix => exact stopped
  | body opens => rw [opens.run_eq, stopped]

theorem Stops.run_eq {v : Visit} (stops : v.Stops channel h after) : v.run channel = (.halted h, after) := by
  cases stops with
  | exhausted => rfl
  | @untold levels glyph operand env _ _ known refused =>
    change evaluate channel (levels + 1) _ env _ = _
    rw [evaluate_unary, known]
    change Eval.say channel levels operand after = _
    rw [Eval.say_apply, refused]
  | tooDeep known first second deep =>
    rw [run_binary known]
    refine (Eval.bind_of_success first _).trans ((Eval.bind_of_success second _).trans ?_)
    rw [Eval.operate_apply, BinaryOperator.apply_eq_halted_iff.mpr ⟨rfl, deep, rfl⟩]

/-- A visit is stopped by itself or with one of its parts. -/
theorem stops_or_part_of_halted {v : Visit} (stopped : v.run channel = (.halted h, after)) :
    v.Stops channel h after ∨ ∃ w, Part channel v w ∧ w.run channel = (.halted h, after) := by
  obtain ⟨levels, e, env, before⟩ := v
  cases levels with
  | zero =>
    cases stopped
    exact .inl .exhausted
  | succ levels =>
    -- The expressions that a form visits in order are its parts.
    have each : ∀ {es now}, (∀ w, InOrder channel levels env es now w → Part channel ⟨levels + 1, e, env, before⟩ w) →
        evaluateEach channel levels es env now = (.halted h, after) →
        ∃ w, Part channel ⟨levels + 1, e, env, before⟩ w ∧ w.run channel = (.halted h, after) := by
      intro es now parts halted
      obtain ⟨w, visited, there⟩ := each_eq_halted_iff.mp halted
      exact ⟨w, parts w visited, there⟩
    change evaluate channel (levels + 1) e env before = _ at stopped
    cases e with
    | literal a => cases stopped
    | lambda params body => cases stopped
    | var name =>
      rw [evaluate_var, Eval.lookup_apply] at stopped
      cases found : before.store.lookup name env <;> simp [found] at stopped
    | binary glyph left right =>
      cases known : BinaryOperator.ofGlyph? glyph with
      | none => rw [evaluate_binary, known] at stopped; cases stopped
      | some op =>
        have bound := (run_binary known left right before).symm.trans stopped
        rcases Eval.bind_eq_halted_iff.mp bound with here | ⟨a, now, first, later⟩
        · exact .inr ⟨_, .binary known .here, here⟩
        rcases Eval.bind_eq_halted_iff.mp later with there | ⟨b, last, second, applied⟩
        · exact .inr ⟨_, .binary known (.later first .here), there⟩
        obtain ⟨halts, rfl⟩ := Prod.mk.inj applied
        obtain ⟨rfl, deep, rfl⟩ := BinaryOperator.apply_eq_halted_iff.mp halts
        exact .inl (.tooDeep known first second deep)
    | unary glyph operand =>
      rw [evaluate_unary] at stopped
      cases known : UnaryOperator.ofGlyph? glyph with
      | none => rw [known] at stopped; cases stopped
      | some op =>
        rw [known] at stopped
        cases op with
        | say =>
          change Eval.say channel levels operand before = _ at stopped
          rw [Eval.say_apply] at stopped
          cases refused : channel.obstacle? levels operand with
          | none => rw [refused] at stopped; cases stopped
          | some h' =>
            rw [refused] at stopped
            cases stopped
            exact .inl (.untold known refused)
        | not =>
          rcases Eval.bind_eq_halted_iff.mp stopped with here | ⟨_, _, _, none⟩
          · exact .inr ⟨_, .unary known (by decide), here⟩
          · cases none
        | isZero =>
          rcases Eval.bind_eq_halted_iff.mp stopped with here | ⟨_, _, _, none⟩
          · exact .inr ⟨_, .unary known (by decide), here⟩
          · cases none
    | conditional test yes no =>
      rcases Eval.bind_eq_halted_iff.mp stopped with here | ⟨v, now, tested, branch⟩
      · exact .inr ⟨_, .test, here⟩
      · refine .inr ⟨_, .branch tested, ?_⟩
        change evaluate channel levels (if v.isTrue then yes else no) env now = _
        cases truth : v.isTrue <;> simpa [truth] using branch
    | apply callee args =>
      rcases Eval.bind_eq_halted_iff.mp stopped with here | ⟨v, mid, called, later⟩
      · exact .inr ⟨_, .callee, here⟩
      cases v with
      | closure c =>
        rcases Eval.bind_eq_halted_iff.mp later with there | ⟨values, now, given, body⟩
        · exact .inr (each (fun w member => .argument called member) there)
        by_cases arity : values.length = c.arity
        · rw [if_pos arity] at body
          exact .inr ⟨_, .body (.call called given arity), body⟩
        · rw [if_neg arity] at body
          cases body
      | atom a => cases later
      | quoted q => cases later
    | letIn bindings inner =>
      rcases Eval.bind_eq_halted_iff.mp stopped with here | ⟨values, now, bound, body⟩
      · exact .inr (each (fun w member => .bound member) here)
      · exact .inr ⟨_, .body (.letIn bound), body⟩
    | letRec bindings inner =>
      rw [evaluate_letRec] at stopped
      cases accepted : lambdasOf bindings with
      | error name => rw [accepted] at stopped; cases stopped
      | ok lambdas =>
        rw [accepted] at stopped
        obtain rfl := lambdasOf_eq_ok_iff.mp accepted
        exact .inr ⟨_, .body .letRec, stopped⟩
    | sequence first rest =>
      obtain ⟨w, visited, halted⟩ := last_eq_halted_iff.mp stopped
      exact .inr ⟨w, .item visited, halted⟩
    | fix functional => exact .inr ⟨_, .fix, stopped⟩

theorem halted_of_leadsTo {v w : Visit} (reached : LeadsTo channel v w) (stopped : w.run channel = (.halted h, after)) :
    v.run channel = (.halted h, after) := by
  induction reached with
  | refl => exact stopped
  | tail _ part ih => exact ih (halted_of_part part stopped)

/-- A visit is stopped exactly when it leads to one that is stopped by itself. -/
theorem run_eq_halted_iff {v : Visit} :
    v.run channel = (.halted h, after) ↔ ∃ w, LeadsTo channel v w ∧ w.Stops channel h after := by
  constructor
  · intro stopped
    generalize granted : v.levels = levels
    induction levels generalizing v with
    | zero =>
      rcases stops_or_part_of_halted stopped with stops | ⟨w, part, _⟩
      · exact ⟨v, .refl, stops⟩
      · rw [part.levels_eq] at granted
        cases granted
    | succ levels ih =>
      rcases stops_or_part_of_halted stopped with stops | ⟨w, part, halted⟩
      · exact ⟨v, .refl, stops⟩
      · rw [part.levels_eq] at granted
        obtain ⟨u, further, stops⟩ := ih halted (Nat.succ.inj granted)
        exact ⟨u, .head part further, stops⟩
  · rintro ⟨w, reached, stops⟩
    exact halted_of_leadsTo reached stops.run_eq

end Visit

/-- The limit on recursion only bounds how far a program gets. A run that completes is the same run under every larger
    limit. Whatever a run says, whether it completes or not, is the beginning of what it says under a larger limit.
    And nothing turns the stop of a part into a value or a failure: a run is stopped exactly when it visits something
    that is stopped by itself, and then is stopped there for that reason. -/
theorem limit_only_bounds (channel : Channel) {frames more : Nat} (le : frames ≤ more) (e : Expr) (env : Env)
    (before : Progress) :
    let run (frames : Nat) := evaluate channel (levels frames) e env before
    ((run frames).1.Completed → run more = run frames) ∧
      (∃ said later : List Expr, (run frames).2.said = before.said ++ said.toArray ∧
        (run more).2.said = before.said ++ (said ++ later).toArray) ∧
      (∀ w h after, Visit.LeadsTo channel ⟨levels frames, e, env, before⟩ w → w.run channel = (.halted h, after) →
        run frames = (.halted h, after)) ∧
      ∀ h after, run frames = (.halted h, after) ↔
        ∃ w, Visit.LeadsTo channel ⟨levels frames, e, env, before⟩ w ∧ w.Stops channel h after := by
  intro run
  have granted : levels frames ≤ levels more := Nat.div_le_div_right le
  refine ⟨evaluate_below channel granted e env before, ?_, ?_, ?_⟩
  · obtain ⟨said, said', trail⟩ := evaluate_trails id granted e env before.store before.said before.said
    obtain ⟨later, rfl⟩ := trail.behind
    exact ⟨said, later, trail.left, trail.right⟩
  · intro w h after reached stopped
    exact Visit.halted_of_leadsTo reached stopped
  · intro h after
    have stops : Visit.run channel ⟨levels frames, e, env, before⟩ = (.halted h, after) ↔ _ := Visit.run_eq_halted_iff
    exact stops

/-- Says something and then negates three times. -/
def sayThenNegate : Expr :=
  let negated (e : Expr) : Expr := .unary (lit "not") e
  .sequence (.unary (lit "say") (.var (lit "x"))) [negated (negated (negated (.literal (.boolean true))))]

/-- Six frames suffice to say it but not to negate, twelve suffice for everything. -/
theorem limit_only_bounds_say_then_negate :
    6 ≤ 12 ∧ (evaluate .recorder (levels 6) sayThenNegate [] (.start .empty)).1 = .halted .stackExhausted ∧
      (evaluate .recorder (levels 6) sayThenNegate [] (.start .empty)).2.said = #[.var (lit "x")] ∧
      (∃ w, Visit.LeadsTo .recorder ⟨levels 6, sayThenNegate, [], .start .empty⟩ w ∧
        w.Stops .recorder .stackExhausted ⟨.empty, #[.var (lit "x")]⟩) ∧
      12 ≤ 1000 ∧
      evaluate .recorder (levels 1000) sayThenNegate [] (.start .empty) =
        (.success (.truth false), ⟨.empty, #[.var (lit "x")]⟩) := by
  have few := limit_only_bounds .recorder (show 6 ≤ 12 by decide) sayThenNegate [] (.start .empty)
  have many := limit_only_bounds .recorder (show 12 ≤ 1000 by decide) sayThenNegate [] (.start .empty)
  refine ⟨by decide, rfl, rfl, ?_, by decide, ?_⟩
  · exact (few.2.2.2 .stackExhausted ⟨.empty, #[.var (lit "x")]⟩).mp rfl
  · exact many.1 trivial

end CallByValue
