import CallByValue.Values

/-!
# The store of frames

A frame gives names values. Frames are only ever added; the one exception is a
recursive frame, which is filled while the values put into it may already refer
to it. Closures and environments share frames by number.
-/

namespace CallByValue

/-- The frames made so far, and the mark for the next NaN that is computed. -/
structure Store where
  frames : Array (Table Value)
  nextMark : Nat

namespace Store

/-- The store without frames. The mark zero belongs to the NaN that can be written down. -/
def empty : Store := ⟨#[], 1⟩

/-- The bindings of a frame. -/
def bindings (store : Store) (frame : Nat) : Table Value := store.frames[frame]?.getD .empty

/-- The value of a name in an environment: that of the innermost frame which binds it. -/
def lookup (store : Store) (name : Text) : Env → Option Value
  | [] => none
  | frame :: outer =>
    match (store.bindings frame).find? name with
    | some value => some value
    | none => store.lookup name outer

/-- The environment that the next frame over an environment will make. -/
def next (store : Store) (env : Env) : Env := store.frames.size :: env

/-- The store with a new frame; its environment is `next`. -/
def push (store : Store) (frame : Table Value) : Store := { store with frames := store.frames.push frame }

/-- A new frame over an environment. Where a name repeats, the later value wins. -/
def extend (store : Store) (env : Env) (pairs : List (Text × Value)) : Store × Env :=
  let inner := store.next env
  (store.push (.ofPairs pairs), inner)

/-- A new frame over an environment, in which closures of the given lambdas capture that frame itself. -/
def extendRecursive (store : Store) (env : Env) (lambdas : List (Text × List Text × Expr)) : Store × Env :=
  let inner := store.next env
  store.extend env (lambdas.map fun (name, params, body) => (name, .closure ⟨params, body, inner⟩))

/-- Binds a name in a frame that is being filled. -/
def bind (store : Store) (frame : Nat) (name : Text) (value : Value) : Store :=
  { store with frames := store.frames.modify frame fun table => table.insert name value }

/-- Equality of environments: the same bindings, frame by frame. -/
def agrees (store : Store) : Env → Env → Bool
  | [], [] => true
  | frame :: outer, other :: outerOther =>
    (store.bindings frame).agrees Value.agrees (store.bindings other) && store.agrees outer outerOther
  | _, _ => false

/-- The names of an environment's innermost frame, in the order of their code points. -/
def sortedNames (store : Store) (frame : Nat) : List Text :=
  (store.bindings frame).names.mergeSort fun a b => !(b.map CodePoint.val).lex (a.map CodePoint.val)

/-- An environment for people who look into the evaluator. -/
def inspection (store : Store) : Env → Text
  | [] => lit "<null env>"
  | frame :: _ => lit "<env " ++ Text.listed (store.sortedNames frame) ++ lit ">"

end Store

end CallByValue
