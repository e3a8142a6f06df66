import CallByValue.Evaluation
import CallByValue.Programs

/-!
# Sessions

A host keeps a growing list of environments, makes new ones from old ones and
asks questions about them. Number zero is the environment without frames. No
step changes what the environments already listed answer.
-/

namespace CallByValue

/-- Why a text has no value. -/
inductive Trouble where
  | unreadable (e : LoadError)
  | failure (f : Failure)
  | halted (h : Halt)

/-- The store so far and the environments listed so far, number zero aside. -/
structure Session where
  store : Store
  listed : Array Env

/-- What a host may ask. Environments go by number, and expressions are texts still to be read. -/
inductive Step where
  | root (pairs : List (Text × Text))
  | extend (env : Nat) (pairs : List (Text × Text))
  | extendRecursive (env : Nat) (pairs : List (Text × Text))
  | parent (env : Nat)
  | lookup (env : Nat) (name : Text)
  | evaluate (env : Nat) (source : Text)
  | depth (env : Nat)
  | inspect (env : Nat)
  | bindings (env : Nat)
  | compare (env other : Nat)
  | assign (env : Nat)

/-- What a host is told. -/
inductive Reply where
  | environment (number : Nat)
  | value (v : Value)
  | trouble (t : Trouble)
  | depth (n : Nat)
  | inspection (t : Text)
  | bindings (entries : List (Text × Text))
  | comparison (equal identical : Bool)
  | noParent
  | noBindings
  | readOnly

namespace Store

/-- The value of a text's program in an environment; what it says is lost. -/
def force (store : Store) (env : Env) (source : Text) : Except Trouble Value × Store :=
  match Expr.ofText standardFrames source with
  | .error e => (.error (.unreadable e), store)
  | .ok e =>
    match CallByValue.evaluate .silence (levels standardFrames) e env (.start store) with
    | (.success v, progress) => (.ok v, progress.store)
    | (.failure f, progress) => (.error (.failure f), progress.store)
    | (.halted h, progress) => (.error (.halted h), progress.store)

/-- The values of several texts under their names, up to the first that has none. -/
def forceAll (store : Store) (env : Env) :
    List (Text × Text) → Except Trouble (List (Text × Value)) × Store
  | [] => (.ok [], store)
  | (name, source) :: rest =>
    match store.force env source with
    | (.error t, store) => (.error t, store)
    | (.ok v, store) =>
      match store.forceAll env rest with
      | (.ok pairs, store) => (.ok ((name, v) :: pairs), store)
      | (.error t, store) => (.error t, store)

/-- The text that the last of the pairs with a name gives. -/
def sourceOf (pairs : List (Text × Text)) (name : Text) : Text :=
  ((pairs.reverse.find? (·.1 = name)).map (·.2)).getD []

/-- Fills a frame name by name, each value computed in the frame as it stands. A failure is bound as
    the text that describes it. -/
def fill (store : Store) (frame : Nat) (outer : Env) (pairs : List (Text × Text)) :
    List Text → Option Trouble × Store
  | [] => (none, store)
  | name :: names =>
    match store.force (frame :: outer) (sourceOf pairs name) with
    | (.ok v, store) => (store.bind frame name v).fill frame outer pairs names
    | (.error (.failure f), store) =>
      match f.describe (levels standardFrames) with
      | .ok description => (store.bind frame name (.text description)).fill frame outer pairs names
      | .error h => (some (.halted h), store)
    | (.error t, store) => (some t, store)

end Store

namespace Session

/-- The session in which only the environment without frames is listed. -/
def start : Session := ⟨.empty, #[]⟩

/-- The environment with a number. -/
def env (session : Session) (number : Nat) : Env :=
  match number with
  | 0 => []
  | number + 1 => session.listed[number]?.getD []

/-- Lists an environment unless it is listed already, and tells its number. -/
def list (session : Session) (env : Env) : Session × Reply :=
  match env with
  | [] => (session, .environment 0)
  | env =>
    match session.listed.toList.idxOf? env with
    | some i => (session, .environment (i + 1))
    | none => ({ session with listed := session.listed.push env }, .environment (session.listed.size + 1))

/-- Makes a frame over an environment from the values of texts, and lists it. -/
def extendWith (session : Session) (env : Env) (pairs : List (Text × Text)) : Session × Reply :=
  match session.store.forceAll env pairs with
  | (.error t, store) => ({ session with store }, .trouble t)
  | (.ok values, store) =>
    let (store, inner) := store.extend env values
    Session.list { session with store } inner

/-- The bindings of a frame as they are shown, up to the first that cannot be. -/
def shownBindings : List (Text × Value) → Except Halt (List (Text × Text))
  | [] => .ok []
  | (name, value) :: rest => do
    let text ← value.render (levels standardFrames)
    let texts ← shownBindings rest
    return (name, text) :: texts

/-- Performs a step. -/
def perform (session : Session) : Step → Session × Reply
  | .root [] => (session, .environment 0)
  | .root pairs => session.extendWith [] pairs
  | .extend number pairs => session.extendWith (session.env number) pairs
  | .extendRecursive number pairs =>
    let outer := session.env number
    let (store, _) := session.store.extend outer []
    match store.fill session.store.frames.size outer pairs (pairs.map (·.1)) with
    | (none, store) => Session.list { session with store } (session.store.next outer)
    | (some t, store) => ({ session with store }, .trouble t)
  | .parent number =>
    match session.env number with
    | [] => (session, .noParent)
    | _ :: outer => session.list outer
  | .lookup number name =>
    match session.store.lookup name (session.env number) with
    | some v => (session, .value v)
    | none => (session, .trouble (.failure (.unbound name)))
  | .evaluate number source =>
    match session.store.force (session.env number) source with
    | (.ok v, store) => ({ session with store }, .value v)
    | (.error t, store) => ({ session with store }, .trouble t)
  | .depth number => (session, .depth (session.env number).length)
  | .inspect number => (session, .inspection (session.store.inspection (session.env number)))
  | .bindings number =>
    match session.env number with
    | [] => (session, .noBindings)
    | frame :: _ =>
      match shownBindings (session.store.bindings frame).entries with
      | .ok entries => (session, .bindings entries)
      | .error h => (session, .trouble (.halted h))
  | .compare number other =>
    let a := session.env number
    let b := session.env other
    (session, .comparison (session.store.agrees a b) (a = b))
  | .assign number =>
    match session.env number with
    | [] => (session, .noBindings)
    | _ :: _ => (session, .readOnly)

end Session

end CallByValue
