import CallByValue.Proofs.Disciplines
import CallByValue.Sessions

/-!
# Hosts

What a host may do with the environments that it holds, if the values that it
binds may come from anywhere and it may make the values of a recursive frame as it
pleases, in the frame as it stands. Every step of a session comes down to such
operations.
-/

namespace CallByValue

/-- A way to make values for a frame that is being filled, in the environment whose innermost frame it is. It may go
    wrong, and may make further frames on the way, but only the host fills the frame. -/
structure ValueMaker where
  make : Text → Env → Store → Except Trouble Value × Store
  grows : ∀ name env (store : Store), store.GrowsTo (make name env store).2

/-- Fills a frame name by name, each value made in the frame as it stands. Tells what has been made unless something
    went wrong. -/
def Store.fillWith (maker : ValueMaker) (frame : Nat) (outer : Env) (store : Store) :
    List Text → Except Trouble (List (Text × Value)) × Store
  | [] => (.ok [], store)
  | name :: names =>
    match maker.make name (frame :: outer) store with
    | (.error t, store) => (.error t, store)
    | (.ok v, store) =>
      match (store.bind frame name v).fillWith maker frame outer names with
      | (.ok made, store) => (.ok ((name, v) :: made), store)
      | (.error t, store) => (.error t, store)

/-- Makes a frame over an environment and fills it. The frame has its number before anything is in it. -/
def Store.makeWith (maker : ValueMaker) (store : Store) (outer : Env) (names : List Text) :
    Except Trouble (List (Text × Value)) × Store :=
  (store.push .empty).fillWith maker store.frames.size outer names

/-- The value of an expression, or why it has none. -/
def Store.valueOf (channel : Channel) (levels : Nat) (e : Expr) (env : Env) (store : Store) :
    Except Trouble Value × Store :=
  match evaluate channel levels e env (.start store) with
  | (.success v, progress) => (.ok v, progress.store)
  | (.failure f, progress) => (.error (.failure f), progress.store)
  | (.halted h, progress) => (.error (.halted h), progress.store)

/-- What a host may do. Environments go by number. -/
inductive Operation where
  | root (pairs : List (Text × Value))
  | extend (env : Nat) (pairs : List (Text × Value))
  | extendRecursive (env : Nat) (names : List Text) (maker : ValueMaker)
  | staticLink (env : Nat)
  | lookup (env : Nat) (name : Text)
  | evaluate (env : Nat) (channel : Channel) (levels : Nat) (e : Expr)

namespace Session

/-- Makes a frame over an environment and lists it. -/
def extendBy (session : Session) (env : Env) (pairs : List (Text × Value)) : Session × Reply :=
  let (store, inner) := session.store.extend env pairs
  Session.list { session with store } inner

/-- Does what the host asks for. -/
def operate (session : Session) : Operation → Session × Reply
  | .root [] => (session, .environment 0)
  | .root pairs => session.extendBy [] pairs
  | .extend number pairs => session.extendBy (session.env number) pairs
  | .extendRecursive number names maker =>
    let outer := session.env number
    match session.store.makeWith maker outer names with
    | (.ok _, store) => Session.list { session with store } (session.store.next outer)
    | (.error t, store) => ({ session with store }, .trouble t)
  | .staticLink number =>
    match session.env number with
    | [] => (session, .noParent)
    | _ :: outer => session.list outer
  | .lookup number name =>
    match session.store.lookup name (session.env number) with
    | some v => (session, .value v)
    | none => (session, .trouble (.failure (.unbound name)))
  | .evaluate number channel levels e =>
    match session.store.valueOf channel levels e (session.env number) with
    | (.ok v, store) => ({ session with store }, .value v)
    | (.error t, store) => ({ session with store }, .trouble t)

/-- The session after some operations. -/
def after (session : Session) (operations : List Operation) : Session :=
  operations.foldl (fun session operation => (session.operate operation).1) session

/-- What the host is told, operation by operation. -/
def told (session : Session) : List Operation → List Reply
  | [] => []
  | operation :: operations => (session.operate operation).2 :: (session.operate operation).1.told operations

end Session

/-! ## Filling a frame -/

namespace Store

variable {maker : ValueMaker} {frame : Nat} {outer : Env} {base store after : Store} {values : List (Text × Value)}

theorem size_bind (store : Store) (frame : Nat) (name : Text) (v : Value) :
    (store.bind frame name v).frames.size = store.frames.size := by
  simp [bind]

theorem bindings_bind (inside : frame < store.frames.size) (name : Text) (v : Value) :
    (store.bind frame name v).bindings frame = (store.bindings frame).insert name v := by
  have found : store.frames[frame]? = some store.frames[frame] := Array.getElem?_eq_getElem inside
  simp only [bindings, bind, Array.getElem?_modify, if_pos, found]
  rfl

/-- Binding a name in a frame leaves older frames alone. -/
theorem GrowsTo.bind (growth : base.GrowsTo store) (newer : base.frames.size ≤ frame) (name : Text) (v : Value) :
    base.GrowsTo (store.bind frame name v) := by
  refine List.prefix_iff_getElem?.mpr fun i inside => ?_
  have older : frame ≠ i := by
    rw [Array.length_toList] at inside
    omega
  have same := List.prefix_iff_getElem?.mp growth i inside
  rw [Array.getElem?_toList] at same ⊢
  simpa [Store.bind, Array.getElem?_modify, older] using same

/-- Values are made one after the other and bound in the frame, each where those before it are bound already. -/
inductive Filling (maker : ValueMaker) (frame : Nat) (outer : Env) : Store → List (Text × Value) → Store → Prop where
  | done {store : Store} : Filling maker frame outer store [] store
  | bind {store now after : Store} {name : Text} {v : Value} {values : List (Text × Value)}
      (given : maker.make name (frame :: outer) store = (.ok v, now))
      (others : Filling maker frame outer (now.bind frame name v) values after) :
      Filling maker frame outer store ((name, v) :: values) after

/-- Filling a frame comes to the end of the names or to one for which making a value goes wrong. -/
theorem filling_of_fillWith (maker : ValueMaker) (frame : Nat) (outer : Env) (store : Store) (names : List Text) :
    ∃ values now, store.Filling maker frame outer values now ∧
      ((values.map (·.1) = names ∧ store.fillWith maker frame outer names = (.ok values, now)) ∨
        ∃ name later t after, values.map (·.1) ++ name :: later = names ∧
          maker.make name (frame :: outer) now = (.error t, after) ∧
          store.fillWith maker frame outer names = (.error t, after)) := by
  induction names generalizing store with
  | nil => exact ⟨[], store, .done, .inl ⟨rfl, rfl⟩⟩
  | cons name names ih =>
    rw [fillWith]
    cases given : maker.make name (frame :: outer) store with
    | mk result now =>
      cases result with
      | error t => exact ⟨[], store, .done, .inr ⟨name, names, t, now, rfl, given, rfl⟩⟩
      | ok v =>
        obtain ⟨values, last, filling, ends⟩ := ih (now.bind frame name v)
        refine ⟨(name, v) :: values, last, .bind given filling, ?_⟩
        rcases ends with ⟨named, filled⟩ | ⟨other, later, t, after, named, wrong, filled⟩
        · exact .inl ⟨by rw [List.map_cons, named], by simp only [filled]⟩
        · have names : ((name, v) :: values).map (·.1) ++ other :: later = name :: names := by
            rw [List.map_cons, List.cons_append, named]
          exact .inr ⟨other, later, t, after, names, wrong, by simp only [filled]⟩

namespace Filling

theorem growsTo (filling : store.Filling maker frame outer values after) (growth : base.GrowsTo store)
    (newer : base.frames.size ≤ frame) : base.GrowsTo after := by
  induction filling with
  | done => exact growth
  | @bind store now _ name v _ given _ ih =>
    have made := maker.grows name (frame :: outer) store
    rw [given] at made
    exact ih ((growth.trans made).bind newer name v)

theorem size_le (filling : store.Filling maker frame outer values after) : store.frames.size ≤ after.frames.size := by
  induction filling with
  | done => exact Nat.le_refl _
  | @bind store now _ name v _ given _ ih =>
    have made := maker.grows name (frame :: outer) store
    rw [given] at made
    rw [size_bind] at ih
    exact Nat.le_trans made.size_le ih

/-- The frame holds what has been made, name by name. -/
theorem bindings_eq (filling : store.Filling maker frame outer values after) (inside : frame < store.frames.size) :
    after.bindings frame = values.foldl (fun table pair => table.insert pair.1 pair.2) (store.bindings frame) := by
  induction filling with
  | done => rfl
  | @bind store now _ name v _ given _ ih =>
    have made := maker.grows name (frame :: outer) store
    rw [given] at made
    have still := Nat.lt_of_lt_of_le inside made.size_le
    rw [ih (by rwa [size_bind]), bindings_bind still, made.bindings_eq inside]
    rfl

/-- What is made first has been made on the way. -/
theorem split {earlier later : List (Text × Value)}
    (filling : store.Filling maker frame outer (earlier ++ later) after) :
    ∃ mid, store.Filling maker frame outer earlier mid ∧ mid.Filling maker frame outer later after := by
  induction earlier generalizing store with
  | nil => exact ⟨store, .done, filling⟩
  | cons pair earlier ih =>
    cases filling with
    | bind given others =>
      obtain ⟨mid, first, rest⟩ := ih others
      exact ⟨mid, .bind given first, rest⟩

end Filling

/-- Making a frame leaves those before it alone, even if it goes wrong. -/
theorem growsTo_makeWith (maker : ValueMaker) (store : Store) (outer : Env) (names : List Text) :
    store.GrowsTo (store.makeWith maker outer names).2 := by
  obtain ⟨values, now, filling, ends⟩ :=
    filling_of_fillWith maker store.frames.size outer (store.push .empty) names
  have growth := filling.growsTo (store.growsTo_push .empty) (Nat.le_refl _)
  rw [makeWith]
  rcases ends with ⟨_, filled⟩ | ⟨name, later, t, after, _, wrong, filled⟩
  · rw [filled]
    exact growth
  · have made := maker.grows name (store.frames.size :: outer) now
    rw [wrong] at made
    rw [filled]
    exact growth.trans made

/-- A frame that has been made and filled holds what was made for its names. -/
theorem filling_of_makeWith {names : List Text} (filled : store.makeWith maker outer names = (.ok values, after)) :
    values.map (·.1) = names ∧ (store.push .empty).Filling maker store.frames.size outer values after := by
  obtain ⟨values', now, filling, ⟨named, same⟩ | ⟨_, _, _, _, _, _, same⟩⟩ :=
    filling_of_fillWith maker store.frames.size outer (store.push .empty) names
  · cases same.symm.trans filled
    exact ⟨named, filling⟩
  · cases same.symm.trans filled

theorem made_of_makeWith {names : List Text} (made : store.Made outer)
    (filled : store.makeWith maker outer names = (.ok values, after)) : after.Made (store.next outer) := by
  have larger := Nat.lt_of_lt_of_le (size_lt_push store .empty) (filling_of_makeWith filled).2.size_le
  intro frame inside
  rcases List.mem_cons.mp inside with rfl | older
  · exact larger
  · exact Nat.lt_trans (made frame older) larger

/-- Whatever becomes of it, evaluation leaves all frames as they are. -/
theorem growsTo_valueOf (channel : Channel) (levels : Nat) (e : Expr) (env : Env) (store : Store) :
    store.GrowsTo (store.valueOf channel levels e env).2 := by
  have growth := (evaluate_leadsTo channel levels e env (.start store)).1
  rw [valueOf]
  cases run : evaluate channel levels e env (.start store) with
  | mk outcome progress =>
    rw [run] at growth
    cases outcome <;> exact growth

end Store

/-! ## What operations leave as it is -/

namespace Session

/-- The frames of every listed environment have been made. -/
def Orderly (session : Session) : Prop := ∀ env ∈ session.listed.toList, session.store.Made env

/-- The later session has every frame of the earlier and lists every environment under the same number. -/
structure GrowsTo (before after : Session) : Prop where
  store : before.store.GrowsTo after.store
  listed : before.listed.toList <+: after.listed.toList

variable {session before after : Session} {store : Store} {env : Env}

theorem GrowsTo.refl (session : Session) : session.GrowsTo session := ⟨.refl _, List.prefix_rfl⟩

theorem GrowsTo.trans {first second third : Session} (growth : first.GrowsTo second) (more : second.GrowsTo third) :
    first.GrowsTo third :=
  ⟨growth.store.trans more.store, growth.listed.trans more.listed⟩

theorem growsTo_store (growth : session.store.GrowsTo store) : session.GrowsTo { session with store } :=
  ⟨growth, List.prefix_rfl⟩

theorem Orderly.grow (orderly : session.Orderly) (growth : session.store.GrowsTo store) :
    Orderly { session with store } :=
  fun env listed => (orderly env listed).grow growth

theorem env_eq (session : Session) (number : Nat) :
    session.env number = (([] :: session.listed.toList)[number]?).getD [] := by
  cases number with
  | zero => rfl
  | succ number => simp [Session.env]

theorem Orderly.made (orderly : session.Orderly) (number : Nat) : session.store.Made (session.env number) := by
  rw [env_eq]
  cases found : ([] :: session.listed.toList)[number]? with
  | none => exact nofun
  | some env =>
    rcases List.mem_cons.mp (List.mem_of_getElem? found) with rfl | listed
    · exact nofun
    · exact orderly env listed

theorem GrowsTo.env_eq (growth : before.GrowsTo after) {number : Nat} (listed : number ≤ before.listed.size) :
    after.env number = before.env number := by
  have longer : [] :: before.listed.toList <+: [] :: after.listed.toList :=
    List.cons_prefix_cons.mpr ⟨rfl, growth.listed⟩
  have inside : number < ([] :: before.listed.toList).length := by simpa using Nat.lt_succ_of_le listed
  rw [Session.env_eq, Session.env_eq, List.prefix_iff_getElem?.mp longer number inside,
    List.getElem?_eq_getElem inside]

theorem list_cons (session : Session) (frame : Nat) (outer : Env) :
    session.list (frame :: outer) =
      match session.listed.toList.idxOf? (frame :: outer) with
      | some i => (session, .environment (i + 1))
      | none => (⟨session.store, session.listed.push (frame :: outer)⟩, .environment (session.listed.size + 1)) := rfl

/-- An environment that is not listed yet comes behind all others. -/
theorem list_of_not_listed {frame : Nat} {outer : Env} (fresh : frame :: outer ∉ session.listed.toList) :
    session.list (frame :: outer) =
      (⟨session.store, session.listed.push (frame :: outer)⟩, .environment (session.listed.size + 1)) := by
  have absent : session.listed.toList.idxOf? (frame :: outer) = none := List.idxOf?_eq_none_iff.mpr fresh
  rw [list_cons, absent]

/-- An environment that is listed has a number. It comes behind all others unless it is listed already. -/
theorem list_eq (session : Session) (env : Env) :
    ∃ number listed, session.list env = (⟨session.store, listed⟩, .environment number) ∧
      ([] :: listed.toList)[number]? = some env ∧ (listed = session.listed ∨ listed = session.listed.push env) := by
  cases env with
  | nil => exact ⟨0, session.listed, rfl, rfl, .inl rfl⟩
  | cons frame outer =>
    cases found : session.listed.toList.idxOf? (frame :: outer) with
    | some i =>
      obtain ⟨inside, here, _⟩ := List.idxOf?_eq_some_iff.mp found
      rw [list_cons, found]
      refine ⟨i + 1, session.listed, rfl, ?_, .inl rfl⟩
      rw [List.getElem?_cons_succ, List.getElem?_eq_getElem inside, here]
    | none =>
      rw [list_of_not_listed (List.idxOf?_eq_none_iff.mp found)]
      exact ⟨session.listed.size + 1, session.listed.push (frame :: outer), rfl, by simp, .inr rfl⟩

theorem next_not_listed (orderly : session.Orderly) (env : Env) : session.store.next env ∉ session.listed.toList :=
  fun listed => Nat.lt_irrefl _ (orderly _ listed _ List.mem_cons_self)

theorem list_kept (orderly : session.Orderly) (made : session.store.Made env) :
    (session.list env).1.Orderly ∧ session.GrowsTo (session.list env).1 := by
  obtain ⟨number, listed, same, -, rfl | rfl⟩ := session.list_eq env
  · rw [same]
    exact ⟨orderly, .refl session⟩
  · rw [same]
    refine ⟨fun other member => ?_, .refl _, by simp⟩
    rw [Array.toList_push] at member
    rcases List.mem_append.mp member with older | newest
    · exact orderly other older
    · obtain rfl := List.mem_singleton.mp newest
      exact made

theorem extendBy_kept (orderly : session.Orderly) (made : session.store.Made env) (pairs : List (Text × Value)) :
    (session.extendBy env pairs).1.Orderly ∧ session.GrowsTo (session.extendBy env pairs).1 := by
  have growth := session.store.growsTo_push (.ofPairs pairs)
  have kept := list_kept (orderly.grow growth) (Store.made_push made (.ofPairs pairs))
  exact ⟨kept.1, (growsTo_store growth).trans kept.2⟩

/-- Whatever the host does, and whether it succeeds, fails or goes wrong: every frame and every environment that it held
    stays as it was. -/
theorem operate_kept (orderly : session.Orderly) (operation : Operation) :
    (session.operate operation).1.Orderly ∧ session.GrowsTo (session.operate operation).1 := by
  have unchanged : session.Orderly ∧ session.GrowsTo session := ⟨orderly, .refl session⟩
  have grown : ∀ {store}, session.store.GrowsTo store →
      Orderly { session with store } ∧ session.GrowsTo { session with store } :=
    fun growth => ⟨orderly.grow growth, growsTo_store growth⟩
  cases operation with
  | root pairs =>
    cases pairs with
    | nil => exact unchanged
    | cons pair pairs => exact extendBy_kept orderly (Store.made_nil _) (pair :: pairs)
  | extend number pairs => exact extendBy_kept orderly (orderly.made number) pairs
  | extendRecursive number names maker =>
    have growth := session.store.growsTo_makeWith maker (session.env number) names
    rw [operate]
    split
    · next values store filled =>
      rw [filled] at growth
      have made := Store.made_of_makeWith (orderly.made number) filled
      have listed := list_kept (orderly.grow growth) made
      exact ⟨listed.1, (growsTo_store growth).trans listed.2⟩
    · next t store wrong =>
      rw [wrong] at growth
      exact grown growth
  | staticLink number =>
    have made := orderly.made number
    rw [operate]
    split
    · exact unchanged
    · next frame outer same =>
      rw [same] at made
      exact list_kept orderly fun inner inside => made inner (List.mem_cons_of_mem _ inside)
  | lookup number name =>
    rw [operate]
    split <;> exact unchanged
  | evaluate number channel levels e =>
    have growth := session.store.growsTo_valueOf channel levels e (session.env number)
    rw [operate]
    split
    · next v store same => rw [same] at growth; exact grown growth
    · next t store same => rw [same] at growth; exact grown growth

theorem after_kept (orderly : session.Orderly) (operations : List Operation) :
    (session.after operations).Orderly ∧ session.GrowsTo (session.after operations) := by
  induction operations generalizing session with
  | nil => exact ⟨orderly, .refl session⟩
  | cons operation operations ih =>
    obtain ⟨still, growth⟩ := operate_kept orderly operation
    obtain ⟨last, more⟩ := ih still
    exact ⟨last, growth.trans more⟩

theorem after_append (session : Session) (operations more : List Operation) :
    session.after (operations ++ more) = (session.after operations).after more :=
  List.foldl_append

theorem orderly_start : start.Orderly := nofun

end Session

/-! ## Steps of a session -/

theorem Store.force_eq (store : Store) (env : Env) (source : Text) :
    store.force env source =
      match Expr.ofText standardFrames source with
      | .error e => (.error (.unreadable e), store)
      | .ok e => store.valueOf .silence (levels standardFrames) e env := rfl

theorem Store.growsTo_force (store : Store) (env : Env) (source : Text) :
    store.GrowsTo (store.force env source).2 := by
  rw [force_eq]
  split
  · exact .refl store
  · next e _ => exact store.growsTo_valueOf .silence (levels standardFrames) e env

/-- The value of the text of a name. If it fails, the value is the text that describes the failure. -/
def Store.makeText (pairs : List (Text × Text)) (name : Text) (env : Env) (store : Store) :
    Except Trouble Value × Store :=
  match store.force env (sourceOf pairs name) with
  | (.ok v, store) => (.ok v, store)
  | (.error (.failure f), store) =>
    match f.describe (levels standardFrames) with
    | .ok description => (.ok (.text description), store)
    | .error h => (.error (.halted h), store)
  | (.error t, store) => (.error t, store)

theorem Store.growsTo_makeText (pairs : List (Text × Text)) (name : Text) (env : Env) (store : Store) :
    store.GrowsTo (store.makeText pairs name env).2 := by
  have growth := store.growsTo_force env (sourceOf pairs name)
  rw [makeText]
  split
  · next same => rw [same] at growth; exact growth
  · next same =>
    rw [same] at growth
    split <;> exact growth
  · next same => rw [same] at growth; exact growth

def textMaker (pairs : List (Text × Text)) : ValueMaker := ⟨Store.makeText pairs, Store.growsTo_makeText pairs⟩

theorem Store.fill_cons (frame : Nat) (outer : Env) (pairs : List (Text × Text)) (store : Store) (name : Text)
    (names : List Text) :
    store.fill frame outer pairs (name :: names) =
      match store.makeText pairs name (frame :: outer) with
      | (.ok v, store) => (store.bind frame name v).fill frame outer pairs names
      | (.error t, store) => (some t, store) := by
  rw [fill, makeText]
  cases store.force (frame :: outer) (sourceOf pairs name) with
  | mk result now =>
    cases result with
    | ok v => rfl
    | error t =>
      cases t with
      | failure f =>
        simp only
        cases f.describe (levels standardFrames) <;> rfl
      | _ => rfl

/-- A session fills a frame with the values of texts. -/
theorem Store.fill_eq_fillWith (frame : Nat) (outer : Env) (pairs : List (Text × Text)) (store : Store)
    (names : List Text) :
    store.fill frame outer pairs names =
      match store.fillWith (textMaker pairs) frame outer names with
      | (.ok _, store) => (none, store)
      | (.error t, store) => (some t, store) := by
  induction names generalizing store with
  | nil => rfl
  | cons name names ih =>
    have made : (textMaker pairs).make name (frame :: outer) store = store.makeText pairs name (frame :: outer) := rfl
    rw [fill_cons, fillWith, made]
    cases store.makeText pairs name (frame :: outer) with
    | mk result now =>
      cases result with
      | error t => rfl
      | ok v =>
        simp only [ih]
        cases (now.bind frame name v).fillWith (textMaker pairs) frame outer names with
        | mk made last => cases made <;> rfl

theorem Store.fill_eq_makeWith (store : Store) (outer : Env) (pairs : List (Text × Text)) (names : List Text) :
    (store.push .empty).fill store.frames.size outer pairs names =
      match store.makeWith (textMaker pairs) outer names with
      | (.ok _, store) => (none, store)
      | (.error t, store) => (some t, store) :=
  fill_eq_fillWith store.frames.size outer pairs (store.push .empty) names

namespace Session

theorem exists_after_force (session : Session) (number : Nat) (source : Text) :
    ∃ operations, session.after operations =
      { session with store := (session.store.force (session.env number) source).2 } := by
  rw [Store.force_eq]
  split
  · exact ⟨[], rfl⟩
  · next e _ =>
    refine ⟨[.evaluate number .silence (levels standardFrames) e], ?_⟩
    change (session.operate (.evaluate number .silence (levels standardFrames) e)).1 = _
    rw [operate]
    cases session.store.valueOf .silence (levels standardFrames) e (session.env number) with
    | mk result store => cases result <;> rfl

theorem exists_after_forceAll (session : Session) (number : Nat) (pairs : List (Text × Text)) :
    ∃ operations, session.after operations =
      { session with store := (session.store.forceAll (session.env number) pairs).2 } := by
  induction pairs generalizing session with
  | nil => exact ⟨[], rfl⟩
  | cons pair pairs ih =>
    obtain ⟨name, source⟩ := pair
    obtain ⟨first, evaluated⟩ := session.exists_after_force number source
    rw [Store.forceAll]
    cases forced : session.store.force (session.env number) source with
    | mk result now =>
      rw [forced] at evaluated
      cases result with
      | error t => exact ⟨first, evaluated⟩
      | ok v =>
        obtain ⟨rest, others⟩ := ih { session with store := now }
        refine ⟨first ++ rest, ?_⟩
        rw [after_append, evaluated, others]
        change { session with store := (now.forceAll (session.env number) pairs).2 } = _
        simp only
        cases now.forceAll (session.env number) pairs with
        | mk values last => cases values <;> rfl

theorem exists_after_extendWith (session : Session) (number : Nat) (pairs : List (Text × Text)) :
    ∃ operations, session.after operations = (session.extendWith (session.env number) pairs).1 := by
  obtain ⟨forcing, forced⟩ := session.exists_after_forceAll number pairs
  rw [extendWith]
  cases same : session.store.forceAll (session.env number) pairs with
  | mk result now =>
    rw [same] at forced
    cases result with
    | error t => exact ⟨forcing, forced⟩
    | ok values =>
      refine ⟨forcing ++ [.extend number values], ?_⟩
      rw [after_append, forced]
      rfl

/-- A step of a session does what some operations of the host do. -/
theorem exists_after_perform (session : Session) (step : Step) :
    ∃ operations, session.after operations = (session.perform step).1 := by
  cases step with
  | root pairs =>
    cases pairs with
    | nil => exact ⟨[], rfl⟩
    | cons pair pairs => exact session.exists_after_extendWith 0 (pair :: pairs)
  | extend number pairs => exact session.exists_after_extendWith number pairs
  | extendRecursive number pairs =>
    refine ⟨[.extendRecursive number (pairs.map (·.1)) (textMaker pairs)], ?_⟩
    change (session.operate (.extendRecursive number (pairs.map (·.1)) (textMaker pairs))).1 = _
    have extended : session.store.extend (session.env number) [] =
      (session.store.push .empty, session.store.next (session.env number)) := rfl
    rw [operate, perform, extended]
    simp only [Store.fill_eq_makeWith]
    cases session.store.makeWith (textMaker pairs) (session.env number) (pairs.map (·.1)) with
    | mk made store => cases made <;> rfl
  | parent number =>
    have same : session.operate (.staticLink number) = session.perform (.parent number) := by
      unfold operate perform
      cases session.env number <;> rfl
    exact ⟨[.staticLink number], congrArg Prod.fst same⟩
  | lookup number name =>
    refine ⟨[], ?_⟩
    rw [perform]
    cases session.store.lookup name (session.env number) <;> rfl
  | evaluate number source =>
    obtain ⟨operations, forced⟩ := session.exists_after_force number source
    refine ⟨operations, forced.trans ?_⟩
    rw [perform]
    cases session.store.force (session.env number) source with
    | mk result now => cases result <;> rfl
  | depth number => exact ⟨[], rfl⟩
  | inspect number => exact ⟨[], rfl⟩
  | bindings number =>
    refine ⟨[], ?_⟩
    rw [perform]
    split
    · rfl
    · split <;> rfl
  | compare number other => exact ⟨[], rfl⟩
  | assign number =>
    refine ⟨[], ?_⟩
    rw [perform]
    split <;> rfl

end Session

end CallByValue
