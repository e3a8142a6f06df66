import CallByValue.Proofs.Budgets
import CallByValue.Proofs.Semantics

/-!
# Evaluation obeys the rules

Whatever a run comes to under some budget, the rules derive: the outcome, what was
said on the way and the store left behind. A run is made of parts, so what it
obeys is put together from what its parts obey.
-/

namespace CallByValue

/-! ## Names, glyphs and operators -/

namespace Store

variable {store : Store} {env : Env} {name : Text}

theorem lookup_eq_some_iff {v : Value} : store.lookup name env = some v ↔ store.Innermost env name v := by
  induction env with
  | nil =>
    constructor
    · intro found
      cases found
    · rintro ⟨inner, frame, outer, split, _⟩
      simp at split
  | cons frame outer ih =>
    rw [lookup_cons]
    cases here : (store.bindings frame).find? name with
    | some w =>
      rw [Option.some_or]
      constructor
      · rintro ⟨⟩
        exact ⟨[], frame, outer, rfl, by simp, here⟩
      · rintro ⟨inner, f, rest, split, silent, found⟩
        cases inner with
        | nil =>
          obtain ⟨rfl, rfl⟩ := List.cons.inj split
          rw [← here, found]
        | cons g inner =>
          obtain ⟨rfl, _⟩ := List.cons.inj split
          rw [silent _ List.mem_cons_self] at here
          cases here
    | none =>
      rw [Option.none_or, ih]
      constructor
      · rintro ⟨inner, f, rest, rfl, silent, found⟩
        exact ⟨frame :: inner, f, rest, rfl, List.forall_mem_cons.mpr ⟨here, silent⟩, found⟩
      · rintro ⟨inner, f, rest, split, silent, found⟩
        cases inner with
        | nil =>
          obtain ⟨rfl, rfl⟩ := List.cons.inj split
          rw [found] at here
          cases here
        | cons g inner =>
          obtain ⟨rfl, rfl⟩ := List.cons.inj split
          exact ⟨inner, f, rest, rfl, fun h member => silent h (List.mem_cons_of_mem _ member), found⟩

theorem lookup_eq_none_iff : store.lookup name env = none ↔ store.Lacks env name := by
  unfold Lacks
  induction env with
  | nil => simp [lookup]
  | cons frame outer ih => rw [lookup_cons, Option.or_eq_none_iff, ih, List.forall_mem_cons]

end Store

namespace BinaryOperator

theorem ofGlyph?_glyph (op : BinaryOperator) : ofGlyph? op.glyph = some op := by
  cases op <;> decide

theorem glyph_eq_of_ofGlyph? {glyph : Text} {op : BinaryOperator} (known : ofGlyph? glyph = some op) :
    op.glyph = glyph := by
  simpa using List.find?_some known

theorem ofGlyph?_eq_none_iff {glyph : Text} : ofGlyph? glyph = none ↔ ∀ op : BinaryOperator, op.glyph ≠ glyph := by
  constructor
  · rintro unknown op rfl
    rw [ofGlyph?_glyph] at unknown
    cases unknown
  · intro other
    refine List.find?_eq_none.mpr fun op _ => ?_
    simpa using other op

end BinaryOperator

namespace UnaryOperator

theorem ofGlyph?_glyph (op : UnaryOperator) : ofGlyph? op.glyph = some op := by
  cases op <;> decide

theorem glyph_eq_of_ofGlyph? {glyph : Text} {op : UnaryOperator} (known : ofGlyph? glyph = some op) :
    op.glyph = glyph := by
  simpa using List.find?_some known

theorem ofGlyph?_eq_none_iff {glyph : Text} : ofGlyph? glyph = none ↔ ∀ op : UnaryOperator, op.glyph ≠ glyph := by
  constructor
  · rintro unknown op rfl
    rw [ofGlyph?_glyph] at unknown
    cases unknown
  · intro other
    refine List.find?_eq_none.mpr fun op _ => ?_
    simpa using other op

end UnaryOperator

namespace BinaryOperator

variable {mark levels : Nat} {op : BinaryOperator} {a b : Value} {outcome : Outcome Value}

theorem arithmetic?_eq_none_iff : op.arithmetic? mark = none ↔ op = .equal := by
  cases op <;> simp [arithmetic?]

/-- An operator that is not stopped yields what its rules say. -/
theorem yields_apply (completed : (op.apply mark levels a b).Completed) :
    Yields mark op a b (op.apply mark levels a b) := by
  unfold apply at completed ⊢
  cases arithmetic : op.arithmetic? mark with
  | none =>
    obtain rfl := arithmetic?_eq_none_iff.mp arithmetic
    simp only [arithmetic] at completed ⊢
    cases granted : canCompare levels a b with
    | true => exact .equal
    | false => simp [granted, Outcome.Completed] at completed
  | some f =>
    cases left : a.number? with
    | none => exact .leftOperand arithmetic left
    | some x =>
      cases right : b.number? with
      | none => exact .rightOperand arithmetic left right
      | some y =>
        cases result : f x y with
        | ok n => simpa only [result] using Yields.number arithmetic left right result
        | error fault =>
          cases fault with
          | divisionByZero => simpa only [result] using Yields.divisionByZero arithmetic left right result
          | overflow => simpa only [result] using Yields.overflow arithmetic left right result

/-- What the rules say is what an operator makes under every budget that suffices for a comparison. -/
theorem Yields.apply_eq (yields : Yields mark op a b outcome) (granted : canCompare levels a b) :
    op.apply mark levels a b = outcome := by
  unfold BinaryOperator.apply
  cases yields with
  | equal => simp [arithmetic?, granted]
  | leftOperand arithmetic other => simp only [arithmetic, other]
  | rightOperand arithmetic left other => simp only [arithmetic, left, other]
  | number arithmetic left right result => simp only [arithmetic, left, right, result]
  | divisionByZero arithmetic left right fault => simp only [arithmetic, left, right, fault]
  | overflow arithmetic left right fault => simp only [arithmetic, left, right, fault]

theorem canCompare_of_le {levels : Nat} {a b : Value} (le : 2 * a.depth ≤ levels) : canCompare levels a b = true :=
  decide_eq_true (by omega)

end BinaryOperator

/-! ## What runs follow -/

/-- Some budget suffices for the channel to take an expression. -/
def Channel.Takes (channel : Channel) (e : Expr) : Prop := ∃ levels, channel.obstacle? levels e = none

/-- How a store and an outcome, what was said on the way and the store left behind belong together. -/
abbrev Rule (α : Type) := Store → Outcome α → List Expr → Store → Prop

/-- One rule and, where it comes to a value, another for what is done with that value. -/
def Rule.andThen {α β : Type} (first : Rule α) (next : α → Rule β) : Rule β := fun store outcome said after =>
  (∃ e, outcome = .failure e ∧ first store (.failure e) said after) ∨
    ∃ a early late mid, first store (.success a) early mid ∧ next a mid outcome late after ∧ said = early ++ late

namespace Eval

variable {α β : Type} {channel : Channel}

/-- Every run that completes obeys the rule, and the channel took what it said. -/
def Follows (channel : Channel) (m : Eval α) (rule : Rule α) : Prop :=
  ∀ before, (m before).1.Completed → ∃ said, rule before.store (m before).1 said (m before).2.store ∧
    (m before).2.said = before.said ++ said.toArray ∧ ∀ x ∈ said, channel.Takes x

namespace Follows

theorem imp {m : Eval α} {rule weaker : Rule α} (follows : m.Follows channel rule)
    (implies : ∀ store outcome said after, rule store outcome said after → weaker store outcome said after) :
    m.Follows channel weaker := by
  intro before completed
  obtain ⟨said, obeyed, told, taken⟩ := follows before completed
  exact ⟨said, implies _ _ _ _ obeyed, told, taken⟩

theorem bind {m : Eval α} {rest : α → Eval β} {rule : Rule α} {next : α → Rule β} (first : m.Follows channel rule)
    (others : ∀ a, (rest a).Follows channel (next a)) : (m >>= rest).Follows channel (rule.andThen next) := by
  intro before completed
  obtain ⟨early, obeyed, told, taken⟩ := first before (completed_of_bind completed)
  cases run : m before with
  | mk outcome mid =>
    rw [run] at obeyed told
    cases outcome with
    | success a =>
      rw [bind_of_success run] at completed ⊢
      obtain ⟨late, obeyed', told', taken'⟩ := others a mid completed
      refine ⟨early ++ late, .inr ⟨a, early, late, mid.store, obeyed, obeyed', rfl⟩, ?_, ?_⟩
      · have grown : mid.said = before.said ++ early.toArray := told
        simp [told', grown]
      · exact List.forall_mem_append.mpr ⟨taken, taken'⟩
    | failure e =>
      rw [bind_of_failure run]
      exact ⟨early, .inl ⟨e, rfl, obeyed⟩, told, taken⟩
    | halted h =>
      rw [bind_of_halted run] at completed
      exact completed.elim

/-- What neither says anything nor touches the store. -/
theorem silent {m : Eval α} {outcome : Outcome α} {rule : Rule α} (still : ∀ before, m before = (outcome, before))
    (obeyed : ∀ store, rule store outcome [] store) : m.Follows channel rule := by
  intro before _
  rw [still before]
  exact ⟨[], obeyed _, by simp, by simp⟩

/-- A part whose value is only turned into another one. -/
theorem map {m : Eval α} {rule : Rule α} (follows : m.Follows channel rule) (g : α → β) :
    (m >>= fun a => pure (g a)).Follows channel fun store outcome said after =>
      (∃ e, outcome = .failure e ∧ rule store (.failure e) said after) ∨
        ∃ a, outcome = .success (g a) ∧ rule store (.success a) said after := by
  let returned (a : α) : Rule β := fun store outcome said after =>
    outcome = .success (g a) ∧ said = [] ∧ after = store
  have others (a : α) : (pure (g a) : Eval β).Follows channel (returned a) :=
    silent (fun _ => rfl) fun _ => ⟨rfl, rfl, rfl⟩
  refine imp (bind follows others) ?_
  rintro store outcome said after (failed | ⟨a, early, _, mid, obeyed, ⟨rfl, rfl, rfl⟩, rfl⟩)
  · exact .inl failed
  · rw [List.append_nil]
    exact .inr ⟨a, rfl, obeyed⟩

theorem halted {h : Halt} {rule : Rule α} : (Eval.ended (.halted h)).Follows channel rule :=
  fun _ completed => completed.elim

theorem lookup {name : Text} {env : Env} :
    (Eval.lookup name env).Follows channel fun store => Derives store env (.var name) := by
  intro before _
  rw [lookup_apply]
  cases found : before.store.lookup name env with
  | some v => exact ⟨[], .var (Store.lookup_eq_some_iff.mp found), by simp, by simp⟩
  | none => exact ⟨[], .unbound (Store.lookup_eq_none_iff.mp found), by simp, by simp⟩

theorem operate (op : BinaryOperator) (levels : Nat) (a b : Value) :
    (Eval.operate op levels a b).Follows channel fun store outcome said after =>
      BinaryOperator.Yields store.nextMark op a b outcome ∧ said = [] ∧ after = store.tick := by
  intro before completed
  rw [operate_apply] at completed ⊢
  exact ⟨[], ⟨BinaryOperator.yields_apply completed, rfl, rfl⟩, by simp [Progress.tick], by simp⟩

theorem say (levels : Nat) (e : Expr) :
    (Eval.say channel levels e).Follows channel fun store outcome said after =>
      outcome = .success (.quoted e) ∧ said = [e] ∧ after = store := by
  intro before completed
  rw [say_apply] at completed ⊢
  cases taken : channel.obstacle? levels e with
  | some halt =>
    rw [taken] at completed
    exact completed.elim
  | none => exact ⟨[e], ⟨rfl, rfl, rfl⟩, by simp [Progress.tell], by simpa using ⟨levels, taken⟩⟩

theorem extend (env : Env) (pairs : List (Text × Value)) :
    (Eval.extend env pairs).Follows channel fun store outcome said after =>
      outcome = .success (store.next env) ∧ said = [] ∧ after = store.push (.ofPairs pairs) :=
  fun _ _ => ⟨[], ⟨rfl, rfl, rfl⟩, by simp [extend_apply, Progress.push], by simp⟩

theorem extendRecursive (env : Env) (lambdas : List (Text × List Text × Expr)) :
    (Eval.extendRecursive env lambdas).Follows channel fun store outcome said after =>
      outcome = .success (store.next env) ∧ said = [] ∧
        after = store.push (.ofPairs (recursivePairs lambdas (store.next env))) :=
  fun _ _ => ⟨[], ⟨rfl, rfl, rfl⟩, by simp [extendRecursive_apply, Progress.push], by simp⟩

theorem each {f : Expr → Eval Value} {env : Env}
    (parts : ∀ e, (f e).Follows channel fun store => Derives store env e) (es : List Expr) :
    (Eval.each f es).Follows channel fun store => DerivesEach store env es := by
  induction es with
  | nil => exact .silent (fun _ => rfl) fun _ => .nil
  | cons e es ih =>
    refine imp (bind (parts e) fun v => map ih (v :: ·)) ?_
    rintro store outcome said after (⟨x, rfl, first⟩ | ⟨v, early, late, mid, first, others, rfl⟩)
    · exact .head first
    · rcases others with ⟨x, rfl, others⟩ | ⟨vs, rfl, others⟩
      · exact .tail first others
      · exact .cons first others

theorem last {f : Expr → Eval Value} {env : Env}
    (parts : ∀ e, (f e).Follows channel fun store => Derives store env e) (e : Expr) (es : List Expr) :
    (Eval.last f e es).Follows channel fun store => Derives store env (.sequence e es) := by
  induction es generalizing e with
  | nil => exact imp (parts e) fun _ _ _ _ only => .last only
  | cons next rest ih =>
    refine imp (bind (parts e) fun _ => ih next) ?_
    rintro store outcome said after (⟨x, rfl, first⟩ | ⟨v, early, late, mid, first, others, rfl⟩)
    · exact .stop first
    · exact .next first others

end Follows

end Eval

/-- A value that is exactly true, or not. -/
theorem Value.isTrue_iff {v : Value} : v.isTrue = true ↔ v = .truth true := by
  constructor
  · intro holds
    cases v with
    | atom a =>
      cases a with
      | boolean b => rw [show b = true from holds]; rfl
      | _ => cases holds
    | _ => cases holds
  · rintro rfl
    rfl

/-! ## Soundness -/

section
variable (channel : Channel)

/-- A call of a closure obeys the rules for calls, if its body obeys the rules. -/
theorem Closure.call_follows {levels : Nat} {c : Closure} {values : List Value}
    (body : ∀ inner, (evaluate channel levels c.body inner).Follows channel fun store => Derives store inner c.body) :
    (c.call channel levels values).Follows channel fun store outcome said after =>
      (values.length ≠ c.arity ∧ outcome = .failure (.arityMismatch c.arity values.length) ∧ said = [] ∧
        after = store) ∨
      (values.length = c.arity ∧
        Derives (store.push (.ofPairs (c.params.zip values))) (store.next c.env) c.body outcome said after) := by
  unfold Closure.call
  split
  · next arity =>
    refine .imp (.bind (.extend _ _) body) ?_
    rintro store outcome said after (⟨x, _, never, _⟩ | ⟨inner, _, late, mid, ⟨h, rfl, rfl⟩, run, rfl⟩)
    · cases never
    · cases h
      exact .inr ⟨arity, run⟩
  · next differs => exact .silent (fun _ => rfl) fun _ => .inl ⟨differs, rfl, rfl, rfl⟩

theorem evaluate_follows (levels : Nat) (e : Expr) (env : Env) :
    (evaluate channel levels e env).Follows channel fun store => Derives store env e := by
  induction levels generalizing e env with
  | zero => exact .halted
  | succ levels ih =>
    cases e with
    | literal a => exact .silent (fun _ => rfl) fun _ => .literal
    | var name => exact .lookup
    | binary glyph left right =>
      rw [evaluate_binary]
      cases known : BinaryOperator.ofGlyph? glyph with
      | none => exact .silent (fun _ => rfl) fun _ => .unknownBinary (BinaryOperator.ofGlyph?_eq_none_iff.mp known)
      | some op =>
        obtain rfl := BinaryOperator.glyph_eq_of_ofGlyph? known
        refine .imp (.bind (ih left env) fun a => .bind (ih right env) fun b => .operate op levels a b) ?_
        rintro store outcome said after (⟨x, rfl, first⟩ | ⟨a, early, late, mid, first, rest, rfl⟩)
        · exact .binaryLeft first
        · rcases rest with ⟨x, rfl, second⟩ | ⟨b, more, _, last, second, ⟨result, rfl, rfl⟩, rfl⟩
          · exact .binaryRight first second
          · rw [List.append_nil]
            exact .binary first second result
    | unary glyph operand =>
      rw [evaluate_unary]
      cases known : UnaryOperator.ofGlyph? glyph with
      | none => exact .silent (fun _ => rfl) fun _ => .unknownUnary (UnaryOperator.ofGlyph?_eq_none_iff.mp known)
      | some op =>
        obtain rfl := UnaryOperator.glyph_eq_of_ofGlyph? known
        cases op with
        | say =>
          refine .imp (.say levels operand) ?_
          rintro store outcome said after ⟨rfl, rfl, rfl⟩
          exact .say
        | not =>
          refine .imp (.map (ih operand env) Value.negated) ?_
          rintro store outcome said after (⟨x, rfl, part⟩ | ⟨v, rfl, part⟩)
          · exact .unaryOperand (by decide) part
          · exact .not part
        | isZero =>
          refine .imp (.map (ih operand env) Value.zeroTest) ?_
          rintro store outcome said after (⟨x, rfl, part⟩ | ⟨v, rfl, part⟩)
          · exact .unaryOperand (by decide) part
          · exact .isZero part
    | conditional test yes no =>
      rw [evaluate_conditional]
      have branch (v : Value) : (if v.isTrue then evaluate channel levels yes env else
          evaluate channel levels no env).Follows channel fun store =>
            Derives store env (if v.isTrue then yes else no) := by
        split
        · exact ih yes env
        · exact ih no env
      refine .imp (.bind (ih test env) branch) ?_
      rintro store outcome said after (⟨x, rfl, first⟩ | ⟨v, early, late, mid, first, second, rfl⟩)
      · exact .test first
      · cases holds : v.isTrue with
        | true =>
          obtain rfl := Value.isTrue_iff.mp holds
          exact .yes first second
        | false =>
          rw [holds] at second
          refine .no first ?_ second
          rintro rfl
          cases holds
    | lambda params body => exact .silent (fun _ => rfl) fun _ => .lambda
    | apply callee args =>
      rw [evaluate_apply]
      have calls (v : Value) : (v.call channel levels (evaluateEach channel levels args env)).Follows channel
          fun store outcome said after =>
            ∀ early mid, Derives early env callee (.success v) mid store →
              Derives early env (.apply callee args) outcome (mid ++ said) after := by
        cases v with
        | closure c =>
          refine .imp (.bind (.each (ih · env) args) fun values => c.call_follows channel (ih c.body)) ?_
          rintro store outcome more after failed early said first
          rcases failed with ⟨x, rfl, second⟩ | ⟨values, more, rest, mid, second, called, rfl⟩
          · exact .argument first second
          · rcases called with ⟨differs, rfl, rfl, rfl⟩ | ⟨arity, third⟩
            · rw [List.append_nil]
              exact .arityMismatch first second differs
            · exact .call first second arity third
        | atom a =>
          refine .silent (fun _ => rfl) fun store early said first => ?_
          rw [List.append_nil]
          exact .notCallable first (fun _ => nofun)
        | quoted q =>
          refine .silent (fun _ => rfl) fun store early said first => ?_
          rw [List.append_nil]
          exact .notCallable first (fun _ => nofun)
      refine .imp (.bind (ih callee env) calls) ?_
      rintro store outcome said after (⟨x, rfl, first⟩ | ⟨v, early, late, mid, first, others, rfl⟩)
      · exact .callee first
      · exact others store early first
    | letIn bindings body =>
      rw [evaluate_letIn]
      refine .imp (.bind (.each (ih · env) _) fun values => .bind (.extend env _) fun inner => ih body inner) ?_
      rintro store outcome said after (⟨x, rfl, first⟩ | ⟨values, early, late, mid, first, others, rfl⟩)
      · exact .bound first
      · rcases others with ⟨x, _, never, _⟩ | ⟨inner, _, more, _, ⟨h, rfl, rfl⟩, second, rfl⟩
        · cases never
        · cases h
          exact .letIn first second
    | letRec bindings body =>
      rw [evaluate_letRec]
      cases accepted : lambdasOf bindings with
      | error name =>
        obtain ⟨lambdas, e, rest, rfl, other⟩ := lambdasOf_eq_error_iff.mp accepted
        exact .silent (fun _ => rfl) fun _ => .notAFunction other
      | ok lambdas =>
        obtain rfl := lambdasOf_eq_ok_iff.mp accepted
        refine .imp (.bind (.extendRecursive env lambdas) fun inner => ih body inner) ?_
        rintro store outcome said after (⟨x, _, never, _⟩ | ⟨inner, _, late, mid, ⟨h, rfl, rfl⟩, first, rfl⟩)
        · cases never
        · cases h
          exact .letRec first
    | sequence first rest =>
      rw [evaluate_sequence]
      exact .last (ih · env) first rest
    | fix functional =>
      rw [evaluate_fix]
      exact .imp (ih _ env) fun _ _ _ _ rewritten => .fix rewritten

end

end CallByValue
