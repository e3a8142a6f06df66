import CallByValue.Evaluation

/-!
# Growing stores

Evaluation only adds frames and only says more. So the frames that an
environment names keep their bindings, and a name that they bind keeps its
value, whatever is evaluated later.
-/

namespace CallByValue

namespace Store

/-- One store holds every frame of the other, and perhaps more. -/
def GrowsTo (before after : Store) : Prop := before.frames.toList <+: after.frames.toList

/-- Every frame of an environment has been made. -/
def Made (store : Store) (env : Env) : Prop := ∀ frame ∈ env, frame < store.frames.size

/-- A name has a value in an environment. -/
def Binds (store : Store) (env : Env) (name : Text) : Prop := (store.lookup name env).isSome

theorem GrowsTo.refl (store : Store) : store.GrowsTo store := List.prefix_rfl

theorem GrowsTo.trans {first second third : Store} (growth : first.GrowsTo second) (more : second.GrowsTo third) :
    first.GrowsTo third := List.IsPrefix.trans growth more

theorem GrowsTo.size_le {before after : Store} (growth : before.GrowsTo after) :
    before.frames.size ≤ after.frames.size := by
  simpa using growth.length_le

theorem GrowsTo.bindings_eq {before after : Store} (growth : before.GrowsTo after) {frame : Nat}
    (made : frame < before.frames.size) : after.bindings frame = before.bindings frame := by
  obtain ⟨later, split⟩ := growth
  have inside : frame < before.frames.toList.length := by simpa using made
  simp only [bindings, ← Array.getElem?_toList, ← split, List.getElem?_append_left inside]

theorem bindings_of_size_le {store : Store} {frame : Nat} (unmade : store.frames.size ≤ frame) :
    store.bindings frame = .empty := by
  simp [bindings, unmade]

theorem lt_size_of_find? {store : Store} {frame : Nat} {name : Text} {v : Value}
    (found : (store.bindings frame).find? name = some v) : frame < store.frames.size := by
  rcases Nat.lt_or_ge frame store.frames.size with made | unmade
  · exact made
  · rw [bindings_of_size_le unmade, Table.find?_empty] at found
    cases found

theorem GrowsTo.find?_eq_some {before after : Store} (growth : before.GrowsTo after) {frame : Nat} {name : Text}
    {value : Value} (found : (before.bindings frame).find? name = some value) :
    (after.bindings frame).find? name = some value := by
  rw [growth.bindings_eq (lt_size_of_find? found), found]

theorem made_nil (store : Store) : store.Made [] := nofun

theorem Made.grow {before after : Store} {env : Env} (made : before.Made env) (growth : before.GrowsTo after) :
    after.Made env :=
  fun frame inside => Nat.lt_of_lt_of_le (made frame inside) growth.size_le

theorem lookup_cons (store : Store) (name : Text) (frame : Nat) (outer : Env) :
    store.lookup name (frame :: outer) = ((store.bindings frame).find? name).or (store.lookup name outer) := by
  rw [lookup]
  cases (store.bindings frame).find? name <;> rfl

/-- An environment whose frames have been made keeps the value of every name. -/
theorem GrowsTo.lookup_eq {before after : Store} (growth : before.GrowsTo after) {env : Env} (made : before.Made env)
    (name : Text) : after.lookup name env = before.lookup name env := by
  induction env with
  | nil => rfl
  | cons frame outer ih =>
    have here : frame < before.frames.size := made frame List.mem_cons_self
    have further : before.Made outer := fun inner inside => made inner (List.mem_cons_of_mem _ inside)
    rw [lookup_cons, lookup_cons, growth.bindings_eq here, ih further]

theorem GrowsTo.binds {before after : Store} (growth : before.GrowsTo after) {env : Env} {name : Text}
    (bound : before.Binds env name) : after.Binds env name := by
  induction env with
  | nil => cases bound
  | cons frame outer ih =>
    unfold Binds at bound ih ⊢
    rw [lookup_cons, Option.isSome_or] at bound ⊢
    rcases Bool.or_eq_true_iff.mp bound with here | further
    · obtain ⟨value, found⟩ := Option.isSome_iff_exists.mp here
      simp [growth.find?_eq_some found]
    · simp [ih further]

theorem exists_frame_of_lookup {store : Store} {env : Env} {name : Text} {value : Value}
    (found : store.lookup name env = some value) :
    ∃ frame ∈ env, (store.bindings frame).find? name = some value := by
  induction env with
  | nil => cases found
  | cons frame outer ih =>
    rw [lookup_cons] at found
    rcases Option.or_eq_some_iff.mp found with here | ⟨_, further⟩
    · exact ⟨frame, List.mem_cons_self, here⟩
    · obtain ⟨inner, inside, there⟩ := ih further
      exact ⟨inner, List.mem_cons_of_mem _ inside, there⟩

theorem growsTo_push (store : Store) (table : Table Value) : store.GrowsTo (store.push table) := by
  simp [GrowsTo, push]

theorem bindings_push_size (store : Store) (table : Table Value) :
    (store.push table).bindings store.frames.size = table := by
  simp [bindings, push]

theorem bindings_push_ne {store : Store} {table : Table Value} {frame : Nat} (older : frame ≠ store.frames.size) :
    (store.push table).bindings frame = store.bindings frame := by
  simp [bindings, push, Array.getElem?_push, older]

/-- What a frame binds after another one has been made is bound there or was bound before. -/
theorem entry_of_push {store : Store} {table : Table Value} {frame : Nat} {name : Text} {v : Value}
    (found : ((store.push table).bindings frame).find? name = some v) :
    table.find? name = some v ∨ (store.bindings frame).find? name = some v := by
  by_cases newest : frame = store.frames.size
  · subst newest
    rw [bindings_push_size] at found
    exact .inl found
  · rw [bindings_push_ne newest] at found
    exact .inr found

theorem size_push (store : Store) (table : Table Value) :
    (store.push table).frames.size = store.frames.size + 1 := by
  simp [push]

theorem size_lt_push (store : Store) (table : Table Value) : store.frames.size < (store.push table).frames.size := by
  rw [size_push]
  exact Nat.lt_succ_self _

theorem made_push {store : Store} {env : Env} (made : store.Made env) (table : Table Value) :
    (store.push table).Made (store.next env) := by
  intro frame inside
  rw [size_push]
  rcases List.mem_cons.mp inside with rfl | older
  · exact Nat.lt_succ_self _
  · exact Nat.lt_succ_of_lt (made frame older)

/-- A new frame is searched first, then the environment it was made over. -/
theorem lookup_push_next {store : Store} {env : Env} (made : store.Made env) (table : Table Value) (name : Text) :
    (store.push table).lookup name (store.next env) = (table.find? name).or (store.lookup name env) := by
  rw [next, lookup_cons, bindings_push_size, (store.growsTo_push table).lookup_eq made]

/-- What a new frame binds is found there, whatever the frame was made over. -/
theorem lookup_push_of_find? {table : Table Value} {name : Text} {value : Value}
    (found : table.find? name = some value) (store : Store) (env : Env) :
    (store.push table).lookup name (store.next env) = some value := by
  rw [next, lookup_cons, bindings_push_size, found, Option.some_or]

theorem binds_push_next {store : Store} {env : Env} {table : Table Value} {name : Text}
    (bound : (table.find? name).isSome ∨ store.Binds env name) : (store.push table).Binds (store.next env) name := by
  rw [Binds, next, lookup_cons, bindings_push_size, Option.isSome_or, Bool.or_eq_true_iff]
  exact bound.imp id fun older => (store.growsTo_push table).binds older

end Store

namespace Progress

/-- The later progress has every frame of the earlier, and everything that was said before. -/
def LeadsTo (before after : Progress) : Prop :=
  before.store.GrowsTo after.store ∧ before.said.toList <+: after.said.toList

theorem LeadsTo.refl (progress : Progress) : progress.LeadsTo progress := ⟨.refl _, List.prefix_rfl⟩

theorem LeadsTo.trans {first second third : Progress} (lead : first.LeadsTo second) (more : second.LeadsTo third) :
    first.LeadsTo third := ⟨lead.1.trans more.1, lead.2.trans more.2⟩

def push (progress : Progress) (table : Table Value) : Progress :=
  { progress with store := progress.store.push table }

theorem leadsTo_push (progress : Progress) (table : Table Value) : progress.LeadsTo (progress.push table) :=
  ⟨progress.store.growsTo_push table, List.prefix_rfl⟩

/-- Progress with one mark used up. -/
def tick (progress : Progress) : Progress :=
  { progress with store := { progress.store with nextMark := progress.store.nextMark + 1 } }

theorem leadsTo_tick (progress : Progress) : progress.LeadsTo progress.tick := ⟨List.prefix_rfl, List.prefix_rfl⟩

def tell (progress : Progress) (e : Expr) : Progress := { progress with said := progress.said.push e }

theorem leadsTo_tell (progress : Progress) (e : Expr) : progress.LeadsTo (progress.tell e) :=
  ⟨.refl _, by simp [tell]⟩

end Progress

end CallByValue
