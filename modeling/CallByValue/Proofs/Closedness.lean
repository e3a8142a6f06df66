import CallByValue.Proofs.Disciplines

/-!
# Closedness

In a closed store every closure that a frame holds captures frames that have been
made. Evaluation keeps it closed, and makes no closure that captures others.
-/

namespace CallByValue

/-- If this is a closure, the frames that it captures have been made. -/
def Value.Made (store : Store) (v : Value) : Prop := ∀ c, v = .closure c → store.Made c.env

/-- Closures in frames capture frames that have been made. -/
def Store.Closed (store : Store) : Prop :=
  ∀ frame name v, (store.bindings frame).find? name = some v → v.Made store

section
variable {before after : Store}

theorem Value.Made.grow {v : Value} (made : v.Made before) (growth : before.GrowsTo after) : v.Made after :=
  fun c same => (made c same).grow growth

theorem Value.made_closure {c : Closure} (made : before.Made c.env) : (Value.closure c).Made before := by
  intro d same
  cases same
  exact made

theorem Value.made_atom (a : Atom) : (Value.atom a).Made before := by
  intro c same
  cases same

theorem Value.made_quoted (e : Expr) : (Value.quoted e).Made before := by
  intro c same
  cases same

theorem Store.closed_empty : Store.empty.Closed := by
  intro frame name v found
  rw [Store.bindings_of_size_le (Nat.zero_le _), Table.find?_empty] at found
  cases found

theorem Store.Closed.lookup {store : Store} (closed : store.Closed) {name : Text} {env : Env} {v : Value}
    (found : store.lookup name env = some v) : v.Made store := by
  obtain ⟨frame, _, entry⟩ := Store.exists_frame_of_lookup found
  exact closed frame name v entry

theorem Store.Closed.push {store : Store} (closed : store.Closed) {table : Table Value}
    (entries : ∀ name v, table.find? name = some v → v.Made (store.push table)) : (store.push table).Closed := by
  intro frame name v found
  rcases Store.entry_of_push found with new | old
  · exact entries name v new
  · exact (closed frame name v old).grow (store.growsTo_push table)

/-- A frame of values that capture what has been made, over an environment that has been made. -/
theorem Store.Closed.push_pairs {store : Store} (closed : store.Closed) {env : Env} (made : store.Made env)
    {pairs : List (Text × Value)} (entries : ∀ pair ∈ pairs, pair.2.Made store) :
    (store.push (.ofPairs pairs)).Closed ∧ (store.push (.ofPairs pairs)).Made (store.next env) := by
  refine ⟨closed.push fun name v found => ?_, Store.made_push made _⟩
  exact (entries _ (Table.mem_of_find?_ofPairs found)).grow (store.growsTo_push _)

theorem Store.Closed.push_recursive {store : Store} (closed : store.Closed) {env : Env} (made : store.Made env)
    {lambdas : List (Text × List Text × Expr)} :
    (store.push (.ofPairs (Eval.recursivePairs lambdas (store.next env)))).Closed := by
  refine closed.push fun name v found => ?_
  obtain ⟨_, _, entry⟩ := List.mem_map.mp (Table.mem_of_find?_ofPairs found)
  cases entry
  exact Value.made_closure (Store.made_push made _)

end

/-- The discipline of a closed store: code runs over frames that have been made. -/
def Discipline.closed : Discipline where
  inv now := now.store.Closed
  permitted _ := True
  admits now env _ := now.store.Made env
  good now v := v.Made now.store
  admits_later lead made := made.grow lead.1
  good_later _ _ lead _ made := made.grow lead.1
  parts made _ _ := made
  literal _ := Value.made_atom _
  truth _ := Value.made_atom _
  found closed _ entry := closed.lookup entry
  unbound _ _ := trivial
  unknownBinary _ _ := trivial
  unknownUnary _ _ := trivial
  operate _ closed _ _ _ _ :=
    ⟨closed, BinaryOperator.apply_satisfies _ _ _ _ _ Value.made_atom trivial (fun _ => trivial) trivial⟩
  say closed _ _ := ⟨closed, Value.made_quoted _⟩
  lambda made := Value.made_closure made
  notCallable _ := trivial
  arityMismatch _ _ := trivial
  call closed made _ given := closed.push_pairs (made _ rfl) fun _ member => given _ (List.of_mem_zip member).2
  letIn closed made _ given := closed.push_pairs made fun _ member => given _ (List.of_mem_zip member).2
  notAFunction _ _ := trivial
  letRec closed made := ⟨closed.push_recursive made, Store.made_push made _⟩

/-- Evaluation keeps a closed store closed, and a closure that it yields captures frames that have been made. -/
theorem evaluate_closed (channel : Channel) (levels : Nat) (e : Expr) {env : Env} {before : Progress}
    (made : before.store.Made env) (closed : before.store.Closed) :
    (evaluate channel levels e env before).2.store.Closed ∧
      ∀ v, (evaluate channel levels e env before).1 = .success v →
        v.Made (evaluate channel levels e env before).2.store := by
  have keeps : Discipline.closed.Keeps before (evaluate channel levels e env) fun after v => v.Made after.store :=
    Discipline.closed.keeps_evaluate channel levels (e := e) made
  obtain ⟨_, kept, satisfied⟩ := keeps before (.refl before) closed
  refine ⟨kept, fun v success => ?_⟩
  rw [success] at satisfied
  exact satisfied

end CallByValue
