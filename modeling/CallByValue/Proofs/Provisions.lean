import CallByValue.Proofs.Idempotence
import CallByValue.Proofs.Occurrences
import CallByValue.Proofs.Soundness
import CallByValue.Proofs.Supervision
import CallByValue.Proofs.WellFormed

/-!
# Provisions

All the code that a run may come across, with the data that may turn up in it. The
code is closed under going into an expression, though not into what `say` says, and
under unrolling a fixed point; what operators make of the data is again among the
data. Then nothing else turns up during the run: the closures are made of the code,
and only that code is visited.
-/

namespace CallByValue

/-- The code of a run, the functions that closures are made of, the expressions that it may say, and the data that it
    may come to. -/
structure Provision where
  code : Expr → Prop
  function : List Text → Expr → Prop
  said : Expr → Prop
  atom : Atom → Prop
  quoted : Expr → Prop
  tolerates : ArithmeticFault → Prop
  inside : ∀ {e part}, code e → part ∈ e.inside → code part
  unrolled : ∀ {functional}, code (.fix functional) → code (.fixedPoint functional)
  lambda : ∀ {params body}, code (.lambda params body) → function params body
  called : ∀ {params body}, function params body → code body
  spoken : ∀ {operand}, code operand.saying → said operand ∧ quoted operand
  literal : ∀ {a}, code (.literal a) → atom a
  truth : ∀ b, atom (.boolean b)
  computed : ∀ {op left right mark f x y n}, code (.binary (BinaryOperator.glyph op) left right) →
    op.arithmetic? mark = some f → atom (.number x) → atom (.number y) → f x y = .ok n → atom (.number n)
  faulty : ∀ {op left right mark f x y fault}, code (.binary (BinaryOperator.glyph op) left right) →
    op.arithmetic? mark = some f → atom (.number x) → atom (.number y) → f x y = .error fault → tolerates fault

namespace Provision

variable (provision : Provision) (watched : Nat → Prop) (heard : List Expr)

/-- A value that may turn up. A closure captures only frames that are watched. -/
def Provides : Value → Prop
  | .atom a => provision.atom a
  | .closure c => provision.function c.params c.body ∧ ∀ frame ∈ c.env, watched frame
  | .quoted e => provision.quoted e

/-- A failure that may turn up: the value that it complains of may and is no number where one was needed, and the
    fault is tolerated. -/
def Permits : Failure → Prop
  | .notCallable v => provision.Provides watched v
  | .notANumber _ v => provision.Provides watched v ∧ v.number? = none
  | .divisionByZero => provision.tolerates .divisionByZero
  | .overflow _ => provision.tolerates .overflow
  | _ => True

/-- Frames still to be made are watched, those that are hold what may turn up, and what has been said since some
    point may be said. -/
structure Covers (now : Progress) : Prop where
  future : ∀ frame, now.store.frames.size ≤ frame → watched frame
  entries : ∀ frame, watched frame → ∀ name v, (now.store.bindings frame).find? name = some v →
    provision.Provides watched v
  emitted : ∃ more, now.said.toList = heard ++ more ∧ ∀ e ∈ more, provision.said e

/-- Code over frames that are watched. -/
def Admits (env : Env) (e : Expr) : Prop := provision.code e ∧ ∀ frame ∈ env, watched frame

variable {provision watched heard}

theorem Admits.part {env : Env} {e part : Expr} (admitted : provision.Admits watched env e) (member : part ∈ e.parts) :
    provision.Admits watched env part := by
  refine ⟨?_, admitted.2⟩
  rcases Expr.mem_inside_or_unrolled member with inside | ⟨functional, rfl, rfl⟩
  · exact provision.inside admitted.1 inside
  · exact provision.unrolled admitted.1

theorem provides_of_number? {v : Value} {n : Number} (provided : provision.Provides watched v)
    (number : v.number? = some n) : provision.atom (.number n) := by
  unfold Value.number? at number
  split at number
  · cases number
    exact provided
  · cases number

theorem Covers.lookup {now : Progress} (covers : provision.Covers watched heard now) {env : Env}
    (inSight : ∀ frame ∈ env, watched frame) {name : Text} {v : Value} (found : now.store.lookup name env = some v) :
    provision.Provides watched v := by
  obtain ⟨frame, inside, entry⟩ := Store.exists_frame_of_lookup found
  exact covers.entries frame (inSight frame inside) name v entry

theorem Covers.tell {now : Progress} {operand : Expr} (covers : provision.Covers watched heard now)
    (spoken : provision.said operand) : provision.Covers watched heard (now.tell operand) := by
  obtain ⟨more, split, allowed⟩ := covers.emitted
  refine ⟨covers.future, covers.entries, more ++ [operand], ?_, ?_⟩
  · simp [Progress.tell, split]
  · intro e member
    rcases List.mem_append.mp member with earlier | last
    · exact allowed e earlier
    · obtain rfl := List.mem_singleton.mp last
      exact spoken

theorem Covers.push {now : Progress} {env : Env} (covers : provision.Covers watched heard now)
    (inSight : ∀ frame ∈ env, watched frame) {pairs : List (Text × Value)}
    (provided : ∀ pair ∈ pairs, provision.Provides watched pair.2) :
    provision.Covers watched heard (now.push (.ofPairs pairs)) ∧ ∀ frame ∈ now.store.next env, watched frame := by
  refine ⟨⟨?_, ?_, covers.emitted⟩, ?_⟩
  · intro frame unmade
    exact covers.future frame ((Store.size_lt_push _ _).le.trans unmade)
  · intro frame inside name v found
    rcases Store.entry_of_push found with new | old
    · exact provided _ (Table.mem_of_find?_ofPairs new)
    · exact covers.entries frame inside name v old
  · intro frame inside
    rcases List.mem_cons.mp inside with rfl | outer
    · exact covers.future _ le_rfl
    · exact inSight frame outer

/-- What an operator makes of values that may turn up may turn up. -/
theorem satisfies_apply {env : Env} {left right : Expr} {op : BinaryOperator} {mark levels : Nat} {a b : Value}
    (admitted : provision.Admits watched env (.binary op.glyph left right)) (first : provision.Provides watched a)
    (second : provision.Provides watched b) :
    (op.apply mark levels a b).Satisfies (provision.Provides watched) (provision.Permits watched) := by
  have yields := @BinaryOperator.yields_apply mark levels op a b
  generalize op.apply mark levels a b = outcome at yields ⊢
  by_cases completed : outcome.Completed
  · cases yields completed with
    | equal => exact provision.truth _
    | leftOperand _ other => exact ⟨first, other⟩
    | rightOperand _ _ other => exact ⟨second, other⟩
    | number arithmetic x y result =>
      exact provision.computed admitted.1 arithmetic (provides_of_number? first x) (provides_of_number? second y) result
    | divisionByZero arithmetic x y fault =>
      exact provision.faulty admitted.1 arithmetic (provides_of_number? first x) (provides_of_number? second y) fault
    | overflow arithmetic x y fault =>
      exact provision.faulty admitted.1 arithmetic (provides_of_number? first x) (provides_of_number? second y) fault
  · cases outcome with
    | halted h => trivial
    | _ => exact absurd trivial completed

variable (provision watched heard)

/-- The discipline of a provision. -/
def discipline : Discipline where
  inv now := provision.Covers watched heard now
  permitted := provision.Permits watched
  admits _ env e := provision.Admits watched env e
  good _ v := provision.Provides watched v
  admits_later _ admitted := admitted
  good_later _ _ _ _ provided := provided
  parts admitted _ member := admitted.part member
  literal admitted := provision.literal admitted.1
  truth b := provision.truth b
  found covers admitted entry := covers.lookup admitted.2 entry
  unbound _ _ := trivial
  unknownBinary _ _ := trivial
  unknownUnary _ _ := trivial
  operate levels covers admitted known first second := by
    obtain rfl := BinaryOperator.glyph_eq_of_ofGlyph? known
    exact ⟨⟨covers.future, covers.entries, covers.emitted⟩, satisfies_apply admitted first second⟩
  say covers admitted known := by
    obtain rfl := UnaryOperator.glyph_eq_of_ofGlyph? known
    obtain ⟨spoken, quoted⟩ := provision.spoken admitted.1
    exact ⟨covers.tell spoken, quoted⟩
  lambda admitted := ⟨provision.lambda admitted.1, admitted.2⟩
  notCallable provided := provided
  arityMismatch _ _ := trivial
  call {now c values} covers closure _ given := by
    have provided : ∀ pair ∈ c.params.zip values, provision.Provides watched pair.2 :=
      fun _ member => given _ (List.of_mem_zip member).2
    have ⟨kept, inSight⟩ := covers.push closure.2 provided
    exact ⟨kept, provision.called closure.1, inSight⟩
  letIn {now env bindings body values} covers admitted _ given := by
    have provided : ∀ pair ∈ (bindings.map (·.1)).zip values, provision.Provides watched pair.2 :=
      fun _ member => given _ (List.of_mem_zip member).2
    have ⟨kept, inSight⟩ := covers.push admitted.2 provided
    exact ⟨kept, provision.inside admitted.1 (by simp [Expr.inside, Expr.children]), inSight⟩
  notAFunction _ _ := trivial
  letRec {now env lambdas body} covers admitted := by
    have inner : ∀ frame ∈ now.store.next env, watched frame := by
      intro frame inside
      rcases List.mem_cons.mp inside with rfl | outer
      · exact covers.future _ le_rfl
      · exact admitted.2 frame outer
    have provided : ∀ pair ∈ Eval.recursivePairs lambdas (now.store.next env), provision.Provides watched pair.2 := by
      intro pair member
      obtain ⟨_, listed, rfl⟩ := List.mem_map.mp member
      have code := provision.inside admitted.1 (List.mem_append_left _ (lambda_mem_lambdaBindings listed))
      exact ⟨provision.lambda code, inner⟩
    have ⟨kept, inSight⟩ := covers.push admitted.2 provided
    exact ⟨kept, provision.inside admitted.1 (by simp [Expr.inside, Expr.children]), inSight⟩

variable {provision watched heard}

/-- Whatever a run visits is code, and whatever comes of it may turn up. -/
theorem Covers.reached {channel : Channel} {root v : Visit} (covers : provision.Covers watched heard root.before)
    (admitted : provision.Admits watched root.env root.expr) (reached : root.LeadsTo channel v) :
    (provision.Covers watched heard v.before ∧ provision.Admits watched v.env v.expr) ∧
      provision.Covers watched heard (v.run channel).2 ∧
      (v.run channel).1.Satisfies (provision.Provides watched) (provision.Permits watched) := by
  have ready : (provision.discipline watched heard).Ready root := ⟨covers, admitted⟩
  exact ⟨ready.reached reached, (ready.reached reached).ends⟩

/-- The value that an outcome carries may turn up. -/
theorem provides_of_carried? {outcome : Outcome Value}
    (satisfied : outcome.Satisfies (provision.Provides watched) (provision.Permits watched)) {v : Value}
    (carried : outcome.carried? = some v) : provision.Provides watched v := by
  cases outcome with
  | success w =>
    cases carried
    exact satisfied
  | halted h => cases carried
  | failure e =>
    cases e <;> cases carried
    · exact satisfied
    · exact satisfied.1

end Provision

/-! ## What an environment gives access to -/

namespace Store

variable {store : Store} {env : Env}

/-- The frames that can be reached from an environment. -/
def InSight (store : Store) (env : Env) (frame : Nat) : Prop :=
  frame ∈ env ∨ ∃ c, store.Reaches env c ∧ frame ∈ c.env

/-- The values that can be reached from an environment. -/
def Holds (store : Store) (env : Env) (v : Value) : Prop :=
  ∃ frame name, store.InSight env frame ∧ (store.bindings frame).find? name = some v

theorem holds_closure_iff {c : Closure} : store.Holds env (.closure c) ↔ store.Reaches env c := by
  constructor
  · rintro ⟨frame, name, inside | ⟨d, reached, inside⟩, found⟩
    · exact .bound inside found
    · exact .captured reached inside found
  · rintro (⟨inside, found⟩ | ⟨reached, inside, found⟩)
    · exact ⟨_, _, .inl inside, found⟩
    · exact ⟨_, _, .inr ⟨_, reached, inside⟩, found⟩

end Store

/-- A provision that has all the values that can be reached covers a run from its beginning on. -/
theorem Provision.covers_of_holds {provision : Provision} {env : Env} {before : Progress}
    (held : ∀ v, before.store.Holds env v → provision.Provides (fun _ => True) v) :
    provision.Covers (before.store.Watches env) before.said.toList before := by
  refine ⟨fun _ unmade => .inl unmade, ?_, [], by simp, nofun⟩
  intro frame watched name v found
  have inSight : before.store.InSight env frame := by
    refine watched.resolve_left fun unmade => ?_
    rw [Store.bindings_of_size_le unmade, Table.find?_empty] at found
    cases found
  have holds : before.store.Holds env v := ⟨frame, name, inSight, found⟩
  have provided := held v holds
  cases v with
  | closure c => exact ⟨provided.1, fun _ inside => .inr (.inr ⟨c, Store.holds_closure_iff.mp holds, inside⟩)⟩
  | _ => exact provided

end CallByValue
