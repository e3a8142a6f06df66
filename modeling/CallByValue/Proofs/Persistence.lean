import CallByValue.Proofs.Hosts
import CallByValue.Proofs.OrderOfNames

/-!
# Persistence

In a pure model an environment is a list of frames and a frame a table that is
never changed. A host that shares frames by number, and fills recursive frames
while they are already referred to, cannot be told from the pure model: what it
learns about an environment is settled when the environment is returned.
-/

namespace CallByValue

/-! ## Tables in order -/

theorem names_setEntry {α : Type} (name : Text) (entry : α) (pairs : List (Text × α)) :
    (setEntry name entry pairs).map (·.1) =
      if name ∈ pairs.map (·.1) then pairs.map (·.1) else pairs.map (·.1) ++ [name] := by
  induction pairs with
  | nil => simp [setEntry]
  | cons pair rest ih =>
    obtain ⟨first, old⟩ := pair
    by_cases same : first = name
    · simp [setEntry, same]
    · rw [setEntry, if_neg same, List.map_cons, ih]
      by_cases inside : name ∈ rest.map (·.1) <;> simp [inside, Ne.symm same]

theorem eraseDups_of_nodup {names : List Text} (distinct : names.Nodup) : names.eraseDups = names := by
  induction names with
  | nil => rfl
  | cons name names ih =>
    obtain ⟨absent, others⟩ := List.nodup_cons.mp distinct
    have kept : names.filter (fun other => !other == name) = names := by
      refine List.filter_eq_self.mpr fun other inside => ?_
      simpa using fun same : other = name => absent (same ▸ inside)
    rw [List.eraseDups_cons, kept, ih others]

theorem eraseDups_append_of_mem {names more : List Text} {name : Text} (inside : name ∈ names) :
    (names ++ name :: more).eraseDups = (names ++ more).eraseDups := by
  have dropped : (name :: more).removeAll names = more.removeAll names := by simp [List.removeAll, inside]
  rw [List.eraseDups_append, List.eraseDups_append, dropped]

namespace Table

variable {α : Type}

theorem names_foldl_insert (pairs : List (Text × α)) (table : Table α) :
    (pairs.foldl (fun table pair => table.insert pair.1 pair.2) table).names =
      (table.names ++ pairs.map (·.1)).eraseDups := by
  induction pairs generalizing table with
  | nil =>
    have kept : table.names.eraseDups = table.names := eraseDups_of_nodup table.distinct
    simp [kept]
  | cons pair rest ih =>
    obtain ⟨name, entry⟩ := pair
    have names : (table.insert name entry).names = if name ∈ table.names then table.names else table.names ++ [name] :=
      names_setEntry name entry table.entries
    rw [List.foldl_cons, ih, names, List.map_cons]
    split
    · next inside => rw [eraseDups_append_of_mem inside]
    · simp

/-- The entry of a name stands beside it. -/
theorem find?_pair (pairs : List (Text × α)) (name : Text) :
    pairs.find? (·.1 = name) = ((pairs.find? (·.1 = name)).map (·.2)).map fun entry => (name, entry) := by
  cases found : pairs.find? (·.1 = name) with
  | none => rfl
  | some pair =>
    have named : pair.1 = name := by simpa using List.find?_some found
    rw [← named]
    rfl

theorem filterMap_find? {pairs part : List (Text × α)}
    (each : ∀ pair ∈ part, pairs.find? (·.1 = pair.1) = some pair) :
    (part.map (·.1)).filterMap (fun name => pairs.find? (·.1 = name)) = part := by
  induction part with
  | nil => rfl
  | cons pair rest ih =>
    have others := ih fun other member => each other (List.mem_cons_of_mem _ member)
    rw [List.map_cons, List.filterMap_cons, each pair List.mem_cons_self, others]

theorem entries_eq (table : Table α) :
    table.entries = table.names.filterMap fun name => table.entries.find? (·.1 = name) := by
  have each : ∀ pair ∈ table.entries, table.entries.find? (·.1 = pair.1) = some pair :=
    fun pair member => find?_eq_some_of_mem table.distinct member
  exact (filterMap_find? each).symm

/-- A table of pairs has each name at its first place, with its last entry. -/
theorem entries_ofPairs (pairs : List (Text × α)) :
    (ofPairs pairs).entries = (pairs.map (·.1)).eraseDups.filterMap fun name => pairs.reverse.find? (·.1 = name) := by
  have names : (ofPairs pairs).names = (pairs.map (·.1)).eraseDups := names_foldl_insert pairs empty
  rw [entries_eq, names]
  congr 1
  funext name
  rw [find?_pair, find?_pair pairs.reverse]
  exact congrArg _ (find?_ofPairs pairs name)

end Table

/-! ## The pure model -/

/-- An environment of the pure model: its frames, the innermost first. -/
abbrev Layers := List (Table Value)

/-- The value of a name in the innermost frame that binds it. -/
def Layers.lookup (name : Text) (layers : Layers) : Option Value := layers.findSome? fun layer => layer.find? name

/-- What a host is told about a name. -/
def Layers.answer (name : Text) (layers : Layers) : Reply :=
  match layers.lookup name with
  | some v => .value v
  | none => .trouble (.failure (.unbound name))

/-- What a host is told about the bindings of an environment's own frame, in order. -/
def Layers.bindings : Layers → Reply
  | [] => .noBindings
  | layer :: _ =>
    match Session.shownBindings layer.entries with
    | .ok entries => .bindings entries
    | .error h => .trouble (.halted h)

/-- The frames of an environment, as the pure model has them. -/
def Store.layers (store : Store) (env : Env) : Layers := env.map store.bindings

/-- What a host is told about an evaluation. -/
def toldOf : Except Trouble Value → Reply
  | .ok v => .value v
  | .error t => .trouble t

/-- What may be made for a name in a frame over others that holds what was made before. -/
def ValueMaker.Gives (maker : ValueMaker) (outer : Layers) (before : List (Text × Value)) (name : Text)
    (result : Except Trouble Value) : Prop :=
  ∃ env store after, maker.make name env store = (result, after) ∧ store.layers env = .ofPairs before :: outer

/-- Each value is made for its name where those before it are bound. -/
def ValueMaker.Fills (maker : ValueMaker) (outer : Layers) (values : List (Text × Value)) : Prop :=
  ∀ earlier name v later, values = earlier ++ (name, v) :: later → maker.Gives outer earlier name (.ok v)

/-- The environments that have been returned, by number. -/
abbrev Ledger := List Layers

namespace Ledger

def env (ledger : Ledger) (number : Nat) : Layers := ledger[number]?.getD []

/-- A new environment is returned under the next number. -/
def Adds (before : Ledger) (env : Layers) (number : Nat) (after : Ledger) : Prop :=
  number = before.length ∧ after = before ++ [env]

/-- An environment is returned under a number: its own from before, or a new one. -/
def Returns (before : Ledger) (env : Layers) (number : Nat) (after : Ledger) : Prop :=
  after[number]? = some env ∧ (after = before ∨ after = before ++ [env])

/-- What a host may be told after an operation, and which environments have been returned then. -/
inductive Step : Ledger → Operation → Reply → Ledger → Prop where
  | nullRoot {ledger} : Step ledger (.root []) (.environment 0) ledger
  | root {before pair pairs new after} (adds : Adds before [.ofPairs (pair :: pairs)] new after) :
      Step before (.root (pair :: pairs)) (.environment new) after
  | extend {before number pairs new after} (adds : Adds before (.ofPairs pairs :: before.env number) new after) :
      Step before (.extend number pairs) (.environment new) after
  | extendRecursive {before number maker values new after} (fills : maker.Fills (before.env number) values)
      (adds : Adds before (.ofPairs values :: before.env number) new after) :
      Step before (.extendRecursive number (values.map (·.1)) maker) (.environment new) after
  | raised {ledger number maker values name later t} (fills : maker.Fills (ledger.env number) values)
      (raises : maker.Gives (ledger.env number) values name (.error t)) :
      Step ledger (.extendRecursive number (values.map (·.1) ++ name :: later) maker) (.trouble t) ledger
  | staticLink {before number layer outer new after} (linked : before.env number = layer :: outer)
      (returns : Returns before outer new after) : Step before (.staticLink number) (.environment new) after
  | noLink {ledger number} (null : ledger.env number = []) : Step ledger (.staticLink number) .noParent ledger
  | lookup {ledger number name} : Step ledger (.lookup number name) ((ledger.env number).answer name) ledger
  | evaluate {ledger number channel levels e env result} {store after : Store}
      (same : store.layers env = ledger.env number) (run : store.valueOf channel levels e env = (result, after)) :
      Step ledger (.evaluate number channel levels e) (toldOf result) ledger

/-- Operations in turn, with what the host is told after each. -/
inductive Run : Ledger → List Operation → List Reply → Ledger → Prop where
  | done {ledger} : Run ledger [] [] ledger
  | step {before operation reply mid operations replies after} (first : Step before operation reply mid)
      (others : Run mid operations replies after) : Run before (operation :: operations) (reply :: replies) after

end Ledger

/-! ## The host simulates the pure model -/

namespace Store

variable {store after : Store} {env : Env} {maker : ValueMaker} {values : List (Text × Value)}

theorem lookup_layers (store : Store) (name : Text) (env : Env) :
    (store.layers env).lookup name = store.lookup name env := by
  induction env with
  | nil => rfl
  | cons frame outer ih =>
    have rest : (store.layers (frame :: outer)).lookup name =
        ((store.bindings frame).find? name).or ((store.layers outer).lookup name) := by
      simp only [layers, Layers.lookup, List.map_cons, List.findSome?_cons]
      cases (store.bindings frame).find? name <;> rfl
    rw [rest, ih, lookup_cons]

/-- Frames that have been made stay as they are. -/
theorem GrowsTo.layers_eq (growth : store.GrowsTo after) (made : store.Made env) :
    after.layers env = store.layers env :=
  List.map_congr_left fun frame inside => growth.bindings_eq (made frame inside)

theorem layers_push (made : store.Made env) (table : Table Value) :
    (store.push table).layers (store.next env) = table :: store.layers env := by
  have older := (store.growsTo_push table).layers_eq made
  rw [next, layers, List.map_cons, bindings_push_size]
  exact congrArg _ older

/-- A frame that is being filled is that of what has been made. -/
theorem layers_of_filling (made : store.Made env)
    (filling : (store.push .empty).Filling maker store.frames.size env values after) :
    after.layers (store.next env) = .ofPairs values :: store.layers env := by
  have bound := filling.bindings_eq (size_lt_push store .empty)
  have growth := filling.growsTo (store.growsTo_push .empty) (Nat.le_refl _)
  rw [bindings_push_size] at bound
  rw [next, layers, List.map_cons, bound]
  exact congrArg _ (growth.layers_eq made)

theorem fills_of_filling (made : store.Made env)
    (filling : (store.push .empty).Filling maker store.frames.size env values after) :
    maker.Fills (store.layers env) values := by
  rintro earlier name v later rfl
  obtain ⟨mid, first, rest⟩ := filling.split
  cases rest with
  | bind given _ => exact ⟨store.next env, mid, _, given, layers_of_filling made first⟩

end Store

namespace Session

variable {session after : Session} {store : Store} {env : Env}

/-- The environments of a session, as the pure model has them. -/
def ledger (session : Session) : Ledger := ([] :: session.listed.toList).map session.store.layers

theorem env_ledger (session : Session) (number : Nat) :
    session.ledger.env number = session.store.layers (session.env number) := by
  rw [Ledger.env, ledger, env_eq, List.getElem?_map]
  cases ([] :: session.listed.toList)[number]? <;> rfl

theorem ledger_store (orderly : session.Orderly) (growth : session.store.GrowsTo store) :
    ledger { session with store } = session.ledger := by
  refine List.map_congr_left fun env listed => ?_
  rcases List.mem_cons.mp listed with rfl | listed
  · rfl
  · exact growth.layers_eq (orderly env listed)

/-- Listing an environment returns it in the pure model. -/
theorem returns_list (session : Session) (env : Env) :
    ∃ new, (session.list env).2 = .environment new ∧
      Ledger.Returns session.ledger (session.store.layers env) new (session.list env).1.ledger := by
  obtain ⟨new, listed, same, here, longer⟩ := session.list_eq env
  rw [same]
  refine ⟨new, rfl, ?_, ?_⟩
  · rw [ledger, List.getElem?_map, here]
    rfl
  · rcases longer with rfl | rfl
    · exact .inl rfl
    · exact .inr (by simp [ledger])

/-- Listing a frame that has just been made adds its environment in the pure model. -/
theorem adds_next (orderly : session.Orderly) (growth : session.store.GrowsTo store) (env : Env) :
    ∃ new, (Session.list { session with store } (session.store.next env)).2 = .environment new ∧
      Ledger.Adds session.ledger (store.layers (session.store.next env)) new
        (Session.list { session with store } (session.store.next env)).1.ledger := by
  have fresh : session.store.next env ∉ session.listed.toList := next_not_listed orderly env
  have listed : Session.list { session with store } (session.store.next env) = _ := list_of_not_listed fresh
  rw [listed, ← ledger_store orderly growth]
  exact ⟨_, rfl, by simp [ledger], by simp [ledger, Store.next]⟩

theorem adds_extendBy (orderly : session.Orderly) (made : session.store.Made env) (pairs : List (Text × Value)) :
    ∃ new, (session.extendBy env pairs).2 = .environment new ∧
      Ledger.Adds session.ledger (.ofPairs pairs :: session.store.layers env) new
        (session.extendBy env pairs).1.ledger := by
  have added := adds_next orderly (session.store.growsTo_push (.ofPairs pairs)) env
  rwa [Store.layers_push made] at added

/-- One operation is a step of the pure model. -/
theorem operate_step (orderly : session.Orderly) (operation : Operation) :
    Ledger.Step session.ledger operation (session.operate operation).2 (session.operate operation).1.ledger := by
  cases operation with
  | root pairs =>
    cases pairs with
    | nil => exact .nullRoot
    | cons pair pairs =>
      obtain ⟨new, told, adds⟩ := adds_extendBy orderly (Store.made_nil _) (pair :: pairs)
      change Ledger.Step _ _ (session.extendBy [] (pair :: pairs)).2 (session.extendBy [] (pair :: pairs)).1.ledger
      rw [told]
      exact .root adds
  | extend number pairs =>
    obtain ⟨new, told, adds⟩ := adds_extendBy orderly (orderly.made number) pairs
    change Ledger.Step _ _ (session.extendBy (session.env number) pairs).2 (session.extendBy _ pairs).1.ledger
    rw [told]
    rw [← env_ledger] at adds
    exact .extend adds
  | extendRecursive number names maker =>
    have made := orderly.made number
    have growth := session.store.growsTo_makeWith maker (session.env number) names
    obtain ⟨values, now, filling, ends⟩ := Store.filling_of_fillWith maker session.store.frames.size
      (session.env number) (session.store.push .empty) names
    have fills := Store.fills_of_filling made filling
    have layers := Store.layers_of_filling made filling
    rw [← env_ledger] at fills layers
    rw [operate]
    rcases ends with ⟨rfl, filled⟩ | ⟨name, later, t, after, rfl, wrong, filled⟩
    · change session.store.makeWith maker (session.env number) _ = _ at filled
      rw [filled] at growth ⊢
      obtain ⟨new, told, adds⟩ := adds_next orderly growth (session.env number)
      rw [layers] at adds
      simp only
      rw [told]
      exact .extendRecursive fills adds
    · change session.store.makeWith maker (session.env number) _ = _ at filled
      rw [filled] at growth ⊢
      simp only
      rw [ledger_store orderly growth]
      exact .raised fills ⟨_, now, after, wrong, layers⟩
  | staticLink number =>
    have layers := session.env_ledger number
    rw [operate]
    cases same : session.env number with
    | nil =>
      rw [same] at layers
      exact .noLink layers
    | cons frame outer =>
      rw [same] at layers
      obtain ⟨new, told, returns⟩ := session.returns_list outer
      simp only
      rw [told]
      exact .staticLink layers returns
  | lookup number name =>
    have same : (session.operate (.lookup number name)) = (session, (session.ledger.env number).answer name) := by
      rw [operate, env_ledger, Layers.answer, Store.lookup_layers]
      cases session.store.lookup name (session.env number) <;> rfl
    rw [same]
    exact .lookup
  | evaluate number channel levels e =>
    have growth := session.store.growsTo_valueOf channel levels e (session.env number)
    rw [operate]
    cases run : session.store.valueOf channel levels e (session.env number) with
    | mk result store =>
      rw [run] at growth
      have same := ledger_store orderly growth
      have told : Ledger.Step session.ledger (.evaluate number channel levels e) (toldOf result) session.ledger :=
        .evaluate (session.env_ledger number).symm run
      cases result <;> (simp only; rw [same]; exact told)

/-- What a host does is a run of the pure model, and it is told the same. -/
theorem after_run (orderly : session.Orderly) (operations : List Operation) :
    Ledger.Run session.ledger operations (session.told operations) (session.after operations).ledger := by
  induction operations generalizing session with
  | nil => exact .done
  | cons operation operations ih =>
    exact .step (operate_step orderly operation) (ih (operate_kept orderly operation).1)

/-- An environment that has been returned stays as it is. -/
theorem GrowsTo.ledger_env (growth : session.GrowsTo after) (orderly : session.Orderly) {number : Nat}
    (listed : number ≤ session.listed.size) : after.ledger.env number = session.ledger.env number := by
  rw [env_ledger, env_ledger, growth.env_eq listed, growth.store.layers_eq (orderly.made number)]

/-! ### Questions about an environment -/

theorem perform_lookup (session : Session) (number : Nat) (name : Text) :
    session.perform (.lookup number name) = (session, (session.ledger.env number).answer name) := by
  rw [perform, env_ledger, Layers.answer, Store.lookup_layers]
  cases session.store.lookup name (session.env number) <;> rfl

theorem perform_bindings (session : Session) (number : Nat) :
    session.perform (.bindings number) = (session, (session.ledger.env number).bindings) := by
  rw [perform, env_ledger]
  cases session.env number with
  | nil => rfl
  | cons frame outer =>
    simp only [Store.layers, List.map_cons, Layers.bindings]
    cases shownBindings (session.store.bindings frame).entries <;> rfl

theorem perform_depth (session : Session) (number : Nat) :
    session.perform (.depth number) = (session, .depth (session.ledger.env number).length) := by
  rw [perform, env_ledger, Store.layers, List.length_map]

/-- The environment that one was made over is returned, or there is none. -/
theorem perform_parent (session : Session) (number : Nat) :
    match session.ledger.env number with
    | [] => (session.perform (.parent number)).2 = .noParent
    | _ :: outer => ∃ new, (session.perform (.parent number)).2 = .environment new ∧
        (session.perform (.parent number)).1.ledger.env new = outer := by
  rw [perform, env_ledger]
  cases session.env number with
  | nil => rfl
  | cons frame outer =>
    obtain ⟨new, told, returned, _⟩ := session.returns_list outer
    refine ⟨new, told, ?_⟩
    rw [Ledger.env, returned]
    rfl

end Session

/-- Environments are persistent. In the pure model a frame is a table, in which a name that repeats keeps its first
    place and takes its last value. Whatever a host does, it is told what the pure model tells, and every step of a
    session is something that a host does. So, however the host goes on, and whether it succeeds, fails or goes wrong,
    an environment that has been returned answers as its frames did when it was. -/
theorem environments_persist :
    (∀ pairs : List (Text × Value), (Table.ofPairs pairs).entries =
      (pairs.map (·.1)).eraseDups.filterMap fun name => pairs.reverse.find? (·.1 = name)) ∧
    (∀ operations,
      Ledger.Run [[]] operations (Session.start.told operations) (Session.start.after operations).ledger) ∧
    (∀ (session : Session) (step : Step), ∃ operations, session.after operations = (session.perform step).1) ∧
    ∀ (operations later : List Operation) (number : Nat),
      let session := Session.start.after operations
      let after := session.after later
      let layers := session.ledger.env number
      number ≤ session.listed.size →
        after.ledger.env number = layers ∧
        (∀ name, (after.perform (.lookup number name)).2 = layers.answer name) ∧
        (after.perform (.bindings number)).2 = layers.bindings ∧
        (after.perform (.depth number)).2 = .depth layers.length ∧
        match layers with
        | [] => (after.perform (.parent number)).2 = .noParent
        | _ :: outer => ∃ new, (after.perform (.parent number)).2 = .environment new ∧
            (after.perform (.parent number)).1.ledger.env new = outer := by
  refine ⟨Table.entries_ofPairs, Session.after_run Session.orderly_start, Session.exists_after_perform, ?_⟩
  intro operations later number session after layers listed
  have orderly : session.Orderly := (Session.after_kept Session.orderly_start operations).1
  have growth : session.GrowsTo after := (Session.after_kept orderly later).2
  have same : after.ledger.env number = layers := growth.ledger_env orderly listed
  refine ⟨same, fun name => ?_, ?_, ?_, ?_⟩
  · rw [Session.perform_lookup, same]
  · rw [Session.perform_bindings, same]
  · rw [Session.perform_depth, same]
  · have parent := after.perform_parent number
    rw [same] at parent
    exact parent

/-- Makes values by evaluating expressions. A failure is raised. -/
def expressionMaker (channel : Channel) (levels : Nat) (sources : Text → Expr) : ValueMaker where
  make name env store := store.valueOf channel levels (sources name) env
  grows name env store := store.growsTo_valueOf channel levels (sources name) env

def bindOne : Operation := .root [(lit "x", .atom (.number (.integer 1)))]

/-- Binds the name again in a recursive frame, and then fails to find another. -/
def bindTwoAndFail : Operation :=
  .extendRecursive 1 [lit "x", lit "y"] (expressionMaker .silence 2 fun name =>
    if name = lit "x" then .literal (.number (.integer 2)) else .var (lit "z"))

/-- What was bound first is still bound after the recursive frame has been given up half filled. -/
theorem environments_persist_half_filled :
    let session := Session.start.after [bindOne]
    let after := session.after [bindTwoAndFail]
    1 ≤ session.listed.size ∧ session.told [bindTwoAndFail] = [.trouble (.failure (.unbound (lit "z")))] ∧
      (after.perform (.lookup 1 (lit "x"))).2 = .value (.atom (.number (.integer 1))) := by
  intro session after
  have listed : 1 ≤ session.listed.size := by decide
  exact ⟨listed, rfl, (environments_persist.2.2.2 [bindOne] [bindTwoAndFail] 1 listed).2.1 (lit "x")⟩

end CallByValue
