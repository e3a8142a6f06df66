import CallByValue.Proofs.Disciplines
import CallByValue.Proofs.Names

/-!
# Well-formed programs

A check that evaluates nothing: every free name is bound, every operator exists
and recursive bindings bind lambdas. A program that passes it, in an environment
whose closures pass it, never fails for want of a binding, an operator or a
lambda, and what it yields passes the check again.
-/

namespace CallByValue

namespace Expr

def binaryGlyphs : List Text := [lit "+", lit "-", lit "*", lit "/", lit "="]

def unaryGlyphs : List Text := [lit "not", lit "zero?", lit "say"]

theorem binary_ofGlyph?_ne_none : ∀ glyph ∈ binaryGlyphs, BinaryOperator.ofGlyph? glyph ≠ none := by decide

theorem unary_ofGlyph?_ne_none : ∀ glyph ∈ unaryGlyphs, UnaryOperator.ofGlyph? glyph ≠ none := by decide

mutual

/-- Every operator exists, and recursive bindings bind lambdas. What `say` says may be anything. -/
def WellBuilt : Expr → Prop
  | .literal _ => True
  | .var _ => True
  | .binary g a b => g ∈ binaryGlyphs ∧ WellBuilt a ∧ WellBuilt b
  | .unary g a => g ∈ unaryGlyphs ∧ (g = UnaryOperator.say.glyph ∨ WellBuilt a)
  | .conditional a b c => WellBuilt a ∧ WellBuilt b ∧ WellBuilt c
  | .lambda _ a => WellBuilt a
  | .apply f as => WellBuilt f ∧ AllWellBuilt as
  | .letIn bs a => BindingsWellBuilt bs ∧ WellBuilt a
  | .letRec bs a => (∀ b ∈ bs, b.2.isLambda = true) ∧ BindingsWellBuilt bs ∧ WellBuilt a
  | .sequence a as => WellBuilt a ∧ AllWellBuilt as
  | .fix a => WellBuilt a

def AllWellBuilt : List Expr → Prop
  | [] => True
  | a :: as => WellBuilt a ∧ AllWellBuilt as

def BindingsWellBuilt : List (Text × Expr) → Prop
  | [] => True
  | (_, a) :: as => WellBuilt a ∧ BindingsWellBuilt as

end

theorem allWellBuilt_iff {es : List Expr} : AllWellBuilt es ↔ ∀ e ∈ es, e.WellBuilt := by
  induction es with
  | nil => simp [AllWellBuilt]
  | cons e es ih => simp [AllWellBuilt, ih]

theorem bindingsWellBuilt_iff {bs : List (Text × Expr)} : BindingsWellBuilt bs ↔ ∀ e ∈ bs.map (·.2), e.WellBuilt := by
  induction bs with
  | nil => simp [BindingsWellBuilt]
  | cons b bs ih => simp [BindingsWellBuilt, ih]

theorem WellBuilt.fixedPoint {functional : Expr} (built : functional.WellBuilt) :
    (fixedPoint functional).WellBuilt := by
  simp [Expr.fixedPoint, WellBuilt, AllWellBuilt, built]

/-- An expression passes the check for an environment. -/
def WellFormed (store : Store) (env : Env) (e : Expr) : Prop :=
  (∀ x ∈ e.free, store.Binds env x) ∧ e.WellBuilt

end Expr

/-- The body of a closure passes the check for the captured environment with the parameters added. -/
def Closure.WellFormed (store : Store) (c : Closure) : Prop :=
  (∀ x ∈ c.body.free, x ∈ c.params ∨ store.Binds c.env x) ∧ c.body.WellBuilt

namespace Store

/-- The closures that can be reached from an environment, through its frames and what closures capture. -/
inductive Reaches (store : Store) (env : Env) : Closure → Prop
  | bound {frame : Nat} {name : Text} {c : Closure} (inside : frame ∈ env)
      (found : (store.bindings frame).find? name = some (.closure c)) : Reaches store env c
  | captured {c : Closure} {frame : Nat} {name : Text} {d : Closure} (outer : Reaches store env c)
      (inside : frame ∈ c.env) (found : (store.bindings frame).find? name = some (.closure d)) :
      Reaches store env d

/-- Every closure that can be reached from an environment passes the check. -/
def WellFormed (store : Store) (env : Env) : Prop := ∀ c, store.Reaches env c → c.WellFormed store

/-- The names of an environment, as a scope. -/
def scope (store : Store) (env : Env) : Expr.Scope := .only (store.Binds env)

end Store

/-! ## The invariant

The check is split: that names are bound is always asked, that operators exist and recursive
bindings bind lambdas only where `strict` holds. A program whose names are bound never misses
one, whatever else may be wrong with it. -/

section
variable (strict : Prop) (guarded : Nat → Prop)

/-- What is asked of an expression that is about to be evaluated. -/
def Expr.Checked (store : Store) (env : Env) (e : Expr) : Prop :=
  e.Within (store.scope env) ∧ (strict → e.WellBuilt)

/-- What is asked of a closure: its body passes, and it captures only frames that are watched. -/
structure Closure.Checked (store : Store) (c : Closure) : Prop where
  within : c.body.Within ((store.scope c.env).bind c.params)
  built : strict → c.body.WellBuilt
  watched : ∀ frame ∈ c.env, guarded frame

def Value.Checked (store : Store) (v : Value) : Prop := ∀ c, v = .closure c → c.Checked strict guarded store

/-- Frames still to be made are watched, and in every watched frame the closures pass. -/
structure Store.Checked (store : Store) : Prop where
  future : ∀ frame, store.frames.size ≤ frame → guarded frame
  entries : ∀ frame, guarded frame → ∀ name v, (store.bindings frame).find? name = some v →
    v.Checked strict guarded store

/-- The failures that the check leaves possible. -/
def Failure.Permitted : Failure → Prop
  | .unbound _ => False
  | .unknownOperator _ => ¬ strict
  | .notAFunction _ => ¬ strict
  | _ => True

end

section
variable {strict : Prop} {guarded : Nat → Prop} {before after : Store}

theorem Store.scope_below (growth : before.GrowsTo after) (env : Env) : (before.scope env).Below (after.scope env) :=
  ⟨fun _ bound => growth.binds bound, fun _ none => none.elim⟩

theorem Expr.Checked.grow {e : Expr} {env : Env} (checked : e.Checked strict before env)
    (growth : before.GrowsTo after) : e.Checked strict after env :=
  ⟨checked.1.widen (Store.scope_below growth env), checked.2⟩

theorem Closure.Checked.grow {c : Closure} (checked : c.Checked strict guarded before)
    (growth : before.GrowsTo after) : c.Checked strict guarded after :=
  ⟨checked.within.widen ((Store.scope_below growth c.env).bind c.params), checked.built, checked.watched⟩

theorem Value.Checked.grow {v : Value} (checked : v.Checked strict guarded before) (growth : before.GrowsTo after) :
    v.Checked strict guarded after :=
  fun c same => (checked c same).grow growth

theorem Value.checked_atom (a : Atom) : (Value.atom a).Checked strict guarded before := by
  intro c same
  cases same

theorem Value.checked_quoted (e : Expr) : (Value.quoted e).Checked strict guarded before := by
  intro c same
  cases same

/-- A frame that binds only values that pass leaves the invariant in force. -/
theorem Store.Checked.push {store : Store} (checked : store.Checked strict guarded) {table : Table Value}
    (entries : ∀ name v, table.find? name = some v → v.Checked strict guarded (store.push table)) :
    (store.push table).Checked strict guarded := by
  refine ⟨fun frame unmade => checked.future frame ?_, ?_⟩
  · rw [Store.size_push] at unmade
    omega
  · intro frame inside name v found
    rcases Store.entry_of_push found with new | old
    · exact entries name v new
    · exact (checked.entries frame inside name v old).grow (store.growsTo_push table)

theorem Store.Checked.tick {progress : Progress} (checked : progress.store.Checked strict guarded) :
    progress.tick.store.Checked strict guarded :=
  ⟨checked.future, fun frame inside name v found =>
    (checked.entries frame inside name v found).grow progress.leadsTo_tick.1⟩

theorem Store.Checked.next {store : Store} (checked : store.Checked strict guarded) {env : Env}
    (watched : ∀ frame ∈ env, guarded frame) : ∀ frame ∈ store.next env, guarded frame := by
  intro frame inside
  rcases List.mem_cons.mp inside with rfl | older
  · exact checked.future _ (Nat.le_refl _)
  · exact watched frame older

theorem Store.Checked.lookup {store : Store} (checked : store.Checked strict guarded) {env : Env} {name : Text}
    {v : Value} (watched : ∀ frame ∈ env, guarded frame) (found : store.lookup name env = some v) :
    v.Checked strict guarded store := by
  obtain ⟨frame, inside, entry⟩ := Store.exists_frame_of_lookup found
  exact checked.entries frame (watched frame inside) name v entry

/-- Inside a form that binds names, those names and the ones from outside are bound by the new frame. -/
theorem Store.scope_bind_below {store : Store} {env : Env} {names : List Text} {table : Table Value}
    (named : ∀ x ∈ names, table.find? x ≠ none) :
    ((store.scope env).bind names).Below ((store.push table).scope (store.next env)) := by
  refine ⟨?_, fun _ none => none.2.elim⟩
  rintro x (bound | outside)
  · exact Store.binds_push_next (.inl (Option.isSome_iff_ne_none.mpr (named x bound)))
  · exact Store.binds_push_next (.inr outside)

/-! ## Every form keeps the invariant -/

/-- The check of an expression is a check of its parts. -/
theorem Expr.Checked.part {store : Store} {env : Env} {e part : Expr} (checked : e.Checked strict store env)
    (member : part ∈ e.parts) : part.Checked strict store env := by
  obtain ⟨within, built⟩ := checked
  cases e with
  | literal a => cases member
  | var name => cases member
  | binary glyph left right =>
    rcases List.mem_cons.mp member with rfl | second
    · exact ⟨within.1, fun h => (built h).2.1⟩
    · obtain rfl := List.mem_singleton.mp second
      exact ⟨within.2, fun h => (built h).2.2⟩
  | unary glyph operand =>
    by_cases spoken : glyph = UnaryOperator.say.glyph
    · rw [Expr.parts, if_pos spoken] at member
      cases member
    · rw [Expr.parts, if_neg spoken, List.mem_singleton] at member
      subst member
      exact ⟨within.resolve_left spoken, fun h => (built h).2.resolve_left spoken⟩
  | conditional test yes no =>
    rcases List.mem_cons.mp member with rfl | branch
    · exact ⟨within.1, fun h => (built h).1⟩
    · rcases List.mem_cons.mp branch with rfl | last
      · exact ⟨within.2.1, fun h => (built h).2.1⟩
      · obtain rfl := List.mem_singleton.mp last
        exact ⟨within.2.2, fun h => (built h).2.2⟩
  | lambda params body => cases member
  | apply callee args =>
    rcases List.mem_cons.mp member with rfl | given
    · rcases within.1 with plain | ⟨_, _, _, _, never⟩
      · exact ⟨plain, fun h => (built h).1⟩
      · exact never.elim
    · exact ⟨Expr.withinAll_iff.mp within.2 _ given, fun h => Expr.allWellBuilt_iff.mp (built h).2 _ given⟩
  | letIn bindings body =>
    exact ⟨Expr.withinBindings_iff.mp within.1 _ member, fun h => Expr.bindingsWellBuilt_iff.mp (built h).1 _ member⟩
  | letRec bindings body => cases member
  | sequence first rest =>
    rcases List.mem_cons.mp member with rfl | later
    · exact ⟨within.1, fun h => (built h).1⟩
    · exact ⟨Expr.withinAll_iff.mp within.2 _ later, fun h => Expr.allWellBuilt_iff.mp (built h).2 _ later⟩
  | fix functional =>
    obtain rfl := List.mem_singleton.mp member
    exact ⟨Expr.Within.fixedPoint within, fun h => (built h).fixedPoint⟩

theorem Store.scope_ofPairs_below {store : Store} {env : Env} {names : List Text} {values : List Value}
    (arity : names.length = values.length) :
    ((store.scope env).bind names).Below
      ((store.push (.ofPairs (names.zip values))).scope (store.next env)) := by
  refine Store.scope_bind_below fun x member absent => Table.find?_ofPairs_eq_none.mp absent ?_
  rw [List.map_fst_zip (Nat.le_of_eq arity)]
  exact member

theorem Store.scope_recursivePairs_below {store : Store} {env : Env} (lambdas : List (Text × List Text × Expr)) :
    ((store.scope env).bind (lambdas.map (·.1))).Below
      ((store.push (.ofPairs (Eval.recursivePairs lambdas (store.next env)))).scope (store.next env)) := by
  refine Store.scope_bind_below fun x member absent => Table.find?_ofPairs_eq_none.mp absent ?_
  simpa [Eval.recursivePairs, Function.comp_def] using member

theorem Store.Checked.push_zip {store : Store} (checked : store.Checked strict guarded) {names : List Text}
    {values : List Value} (given : ∀ v ∈ values, v.Checked strict guarded store) :
    (store.push (.ofPairs (names.zip values))).Checked strict guarded := by
  refine checked.push fun name v found => ?_
  have member := Table.mem_of_find?_ofPairs found
  exact (given v (List.of_mem_zip member).2).grow (store.growsTo_push _)

/-- The closures of a recursive frame may rely on the frame that they stand in. -/
theorem Store.Checked.push_recursive {store : Store} (checked : store.Checked strict guarded) {env : Env}
    (watched : ∀ frame ∈ env, guarded frame) {lambdas : List (Text × List Text × Expr)}
    (bodies : ∀ name params body, (name, params, body) ∈ lambdas →
      body.Within (((store.scope env).bind (lambdas.map (·.1))).bind params) ∧ (strict → body.WellBuilt)) :
    (store.push (.ofPairs (Eval.recursivePairs lambdas (store.next env)))).Checked strict guarded := by
  refine checked.push fun name v found c same => ?_
  obtain ⟨⟨other, params, body⟩, member, equal⟩ := List.mem_map.mp (Table.mem_of_find?_ofPairs found)
  cases equal
  cases same
  obtain ⟨within, built⟩ := bodies _ _ _ member
  exact ⟨within.widen ((Store.scope_recursivePairs_below lambdas).bind params), built, checked.next watched⟩

/-- What is asked of the lambdas of a recursive form, once the names that it binds are counted in. -/
theorem Expr.Checked.bodies {store : Store} {env : Env} {lambdas : List (Text × List Text × Expr)} {rest : Expr}
    (checked : (Expr.letRec (lambdaBindings lambdas) rest).Checked strict store env) :
    ∀ name params body, (name, params, body) ∈ lambdas →
      body.Within (((store.scope env).bind (lambdas.map (·.1))).bind params) ∧ (strict → body.WellBuilt) := by
  intro name params body member
  have bound := lambda_mem_lambdaBindings member
  have inside := Expr.withinBindings_iff.mp checked.1.1 _ bound
  rw [names_lambdaBindings] at inside
  refine ⟨inside, fun h => ?_⟩
  have lambda := Expr.bindingsWellBuilt_iff.mp (checked.2 h).2.1 _ bound
  simpa only [Expr.WellBuilt] using lambda

/-- A recursive form that passes binds lambdas only. -/
theorem Expr.Checked.isLambda {store : Store} {env : Env} {bindings : List (Text × Expr)} {body : Expr} {name : Text}
    (checked : (Expr.letRec bindings body).Checked strict store env) (refused : lambdasOf bindings = .error name) :
    ¬ strict := by
  intro h
  obtain ⟨e, member, other⟩ := exists_of_lambdasOf_eq_error refused
  have lambda := (checked.2 h).1 _ member
  rw [other] at lambda
  cases lambda

variable (strict guarded) in
/-- The discipline of the check: code that passes runs over watched frames, and yields values that pass. -/
def Discipline.checked : Discipline where
  inv now := now.store.Checked strict guarded
  permitted := Failure.Permitted strict
  admits now env e := (∀ frame ∈ env, guarded frame) ∧ e.Checked strict now.store env
  good now v := v.Checked strict guarded now.store
  admits_later lead admitted := ⟨admitted.1, admitted.2.grow lead.1⟩
  good_later _ _ lead _ checked := checked.grow lead.1
  parts admitted _ member := ⟨admitted.1, admitted.2.part member⟩
  literal _ := Value.checked_atom _
  truth _ := Value.checked_atom _
  found kept admitted entry := kept.lookup admitted.1 entry
  unbound admitted absent := by
    have bound : Store.Binds _ _ _ := admitted.2.1
    rw [Store.Binds, absent] at bound
    cases bound
  unknownBinary admitted unknown h := Expr.binary_ofGlyph?_ne_none _ (admitted.2.2 h).1 unknown
  unknownUnary admitted unknown h := Expr.unary_ofGlyph?_ne_none _ (admitted.2.2 h).1 unknown
  operate _ kept _ _ _ _ :=
    ⟨kept.tick, BinaryOperator.apply_satisfies _ _ _ _ _ Value.checked_atom trivial (fun _ => trivial) trivial⟩
  say kept _ _ := ⟨kept, Value.checked_quoted _⟩
  lambda admitted := by
    intro c same
    cases same
    exact ⟨admitted.2.1, admitted.2.2, admitted.1⟩
  notCallable _ := trivial
  arityMismatch _ _ := trivial
  call kept good arity given := by
    obtain ⟨within, built, watched⟩ := good _ rfl
    exact ⟨kept.push_zip given, kept.next watched, within.widen (Store.scope_ofPairs_below arity.symm), built⟩
  letIn kept admitted length given := by
    obtain ⟨watched, within, built⟩ := admitted
    refine ⟨kept.push_zip given, kept.next watched, ?_, fun h => (built h).2⟩
    exact within.2.widen (Store.scope_ofPairs_below (by simp [length]))
  notAFunction admitted refused := admitted.2.isLambda refused
  letRec kept admitted := by
    obtain ⟨watched, checked⟩ := admitted
    have within := checked.1.2
    rw [names_lambdaBindings] at within
    refine ⟨kept.push_recursive watched checked.bodies, kept.next watched, ?_, fun h => (checked.2 h).2.2⟩
    exact within.widen (Store.scope_recursivePairs_below _)

/-- Evaluation under the invariant, whatever the expression and however many levels are granted. -/
theorem sound_evaluate (channel : Channel) (levels : Nat) {e : Expr} {since : Progress} {env : Env}
    (watched : ∀ frame ∈ env, guarded frame) (checked : e.Checked strict since.store env) :
    Eval.Ensures (·.store.Checked strict guarded) (Failure.Permitted strict) since (evaluate channel levels e env)
      fun after v => v.Checked strict guarded after.store :=
  (Discipline.checked strict guarded).keeps_evaluate channel levels ⟨watched, checked⟩

end

/-! ## The check is sound -/

/-- The frames that can be reached from an environment, and those still to be made. -/
def Store.Watches (store : Store) (env : Env) (frame : Nat) : Prop :=
  store.frames.size ≤ frame ∨ frame ∈ env ∨ ∃ c, store.Reaches env c ∧ frame ∈ c.env

/-- An environment that passes the check puts the invariant in force. -/
theorem Store.checked_of_wellFormed {strict : Prop} {store : Store} {env : Env}
    (passes : ∀ c, store.Reaches env c →
      (∀ x ∈ c.body.free, x ∈ c.params ∨ store.Binds c.env x) ∧ (strict → c.body.WellBuilt)) :
    store.Checked strict (store.Watches env) := by
  refine ⟨fun _ unmade => .inl unmade, ?_⟩
  intro frame watched name v found c same
  subst same
  have reached : store.Reaches env c := by
    rcases watched with unmade | inside | ⟨d, reached, inside⟩
    · rw [Store.bindings_of_size_le unmade, Table.find?_empty] at found
      cases found
    · exact .bound inside found
    · exact .captured reached inside found
  obtain ⟨names, built⟩ := passes c reached
  exact ⟨Expr.within_of_free names, built, fun _ inside => .inr (.inr ⟨c, reached, inside⟩)⟩

/-- Under the invariant a closure that passes can be reached only from closures that pass. -/
theorem Closure.Checked.wellFormed {guarded : Nat → Prop} {store : Store} {c : Closure}
    (checked : c.Checked True guarded store) : c.WellFormed store := by
  refine ⟨fun x member => ?_, checked.built trivial⟩
  rcases checked.within.free x member with (bound | outside) | ⟨_, never⟩
  · exact .inl bound
  · exact .inr outside
  · exact never.elim

theorem Store.Checked.wellFormed {guarded : Nat → Prop} {store : Store} (checked : store.Checked True guarded)
    {env : Env} (watched : ∀ frame ∈ env, guarded frame) : store.WellFormed env := by
  intro c reached
  have passes : c.Checked True guarded store := by
    induction reached with
    | bound inside found => exact checked.entries _ (watched _ inside) _ _ found _ rfl
    | captured _ inside found ih => exact checked.entries _ (ih.watched _ inside) _ _ found _ rfl
  exact passes.wellFormed

/-- A well-formed expression in a well-formed environment never misses a binding, an operator or a lambda,
    and neither does anything that its closures do later. A closed program never misses a binding, however
    malformed it may be otherwise. -/
theorem evaluate_wellFormed (channel : Channel) (levels : Nat) :
    (∀ (e : Expr) (env : Env) (before after : Progress) (outcome : Outcome Value),
      e.WellFormed before.store env → before.store.WellFormed env →
      evaluate channel levels e env before = (outcome, after) →
        (∀ name, outcome ≠ .failure (.unbound name)) ∧ (∀ glyph, outcome ≠ .failure (.unknownOperator glyph)) ∧
        (∀ name, outcome ≠ .failure (.notAFunction name)) ∧
        (∀ c, outcome = .success (.closure c) → c.WellFormed after.store ∧ after.store.WellFormed c.env) ∧
        after.store.WellFormed env) ∧
    ∀ (e : Expr) (before : Progress), e.free = [] →
      ∀ name, (evaluate channel levels e [] before).1 ≠ .failure (.unbound name) := by
  constructor
  · intro e env before after outcome passes envPasses run
    have holds : before.store.Checked True (before.store.Watches env) :=
      Store.checked_of_wellFormed fun c reached => ⟨(envPasses c reached).1, fun _ => (envPasses c reached).2⟩
    have watched : ∀ frame ∈ env, before.store.Watches env frame := fun frame inside => .inr (.inl inside)
    have checked : e.Checked True before.store env := ⟨Expr.within_of_free passes.1, fun _ => passes.2⟩
    obtain ⟨_, kept, satisfied⟩ := sound_evaluate channel levels watched checked before (.refl before) holds
    rw [run] at kept satisfied
    refine ⟨?_, ?_, ?_, ?_, kept.wellFormed watched⟩
    · rintro name rfl; exact satisfied
    · rintro glyph rfl; exact satisfied trivial
    · rintro name rfl; exact satisfied trivial
    · rintro c rfl
      have cChecked := satisfied c rfl
      exact ⟨cChecked.wellFormed, kept.wellFormed cChecked.watched⟩
  · intro e before closed name missing
    have nothing : ∀ c, ¬ before.store.Reaches [] c := by
      intro c reached
      induction reached with
      | bound inside _ => cases inside
      | captured _ _ _ ih => exact ih
    have holds : before.store.Checked False (before.store.Watches []) :=
      Store.checked_of_wellFormed fun c reached => (nothing c reached).elim
    have checked : e.Checked False before.store [] :=
      ⟨Expr.within_of_free (by simp [closed]), False.elim⟩
    obtain ⟨_, _, satisfied⟩ := sound_evaluate channel levels (by simp) checked before (.refl before) holds
    rw [missing] at satisfied
    exact satisfied

/-- A function that counts down, in a frame that it captures itself. -/
def countdown : Closure :=
  ⟨[lit "n"], .conditional (.unary (lit "zero?") (.var (lit "n"))) (.var (lit "n"))
    (.apply (.var (lit "down")) [.binary (lit "-") (.var (lit "n")) (.literal (.number (.integer 1)))]), [0]⟩

def countdownStore : Store := ⟨#[.ofPairs [(lit "down", .closure countdown)]], 1⟩

def countdownCall : Expr :=
  .apply (.fix (.lambda [lit "f"] (.var (lit "down")))) [.literal (.number (.integer 3))]

theorem evaluate_wellFormed_countdown :
    countdownCall.WellFormed countdownStore [0] ∧ countdownStore.WellFormed [0] ∧
      ∀ name, (evaluate .silence 50 countdownCall [0] (.start countdownStore)).1 ≠ .failure (.unbound name) := by
  have entry : ∀ frame ∈ [0], ∀ name c,
      (countdownStore.bindings frame).find? name = some (.closure c) → c = countdown := by
    intro frame inside name c found
    obtain rfl := List.mem_singleton.mp inside
    have member : (name, Value.closure c) ∈ [(lit "down", Value.closure countdown)] := Table.mem_of_find?_ofPairs found
    cases List.mem_singleton.mp member
    rfl
  have passes : countdownCall.WellFormed countdownStore [0] := by
    refine ⟨?_, by simp [countdownCall, Expr.WellBuilt, Expr.AllWellBuilt]⟩
    have names : countdownCall.free = [lit "down"] := by decide
    intro x member
    rw [names, List.mem_singleton] at member
    exact member ▸ rfl
  have storePasses : countdownStore.WellFormed [0] := by
    intro c path
    have same : c = countdown := by
      induction path with
      | bound inside found => exact entry _ inside _ _ found
      | captured _ inside found ih =>
        rw [ih] at inside
        exact entry _ inside _ _ found
    subst same
    refine ⟨?_, ?_⟩
    · have names : countdown.body.free = [lit "n", lit "n", lit "down", lit "n"] := by decide
      intro x member
      rw [names] at member
      simp only [List.mem_cons, List.not_mem_nil, or_false] at member
      rcases member with rfl | rfl | rfl | rfl
      · exact .inl (by decide)
      · exact .inl (by decide)
      · exact .inr rfl
      · exact .inl (by decide)
    · simp [countdown, Expr.WellBuilt, Expr.AllWellBuilt]
      decide
  refine ⟨passes, storePasses, ?_⟩
  exact ((evaluate_wellFormed .silence 50).1 countdownCall [0] (.start countdownStore) _ _ passes storePasses rfl).1

end CallByValue
