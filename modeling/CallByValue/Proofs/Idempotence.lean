import CallByValue.Proofs.Closedness
import CallByValue.Proofs.Lockstep
import Mathlib.Data.List.Perm.Subperm

/-!
# Equal environments

Evaluation is meant to depend on an environment only up to equality, which goes
by what the frames bind. It does so where equality is not coarser than what
programs can tell: data have to be of one kind as well, and frames have to be
shared alike. Closures are equal only over the very same frame, and NaNs only if they are
one, so what comes out need not be equal if it is a NaN that the run makes or a
closure over a frame that the run makes or in which the environments differ.
-/

namespace CallByValue

/-! ## Tables that agree -/

namespace Table

variable {α : Type} {agree : α → α → Bool} {a b : Table α}

theorem find?_eq_none_iff {name : Text} : a.find? name = none ↔ name ∉ a.names := by
  rw [find?, Option.map_eq_none_iff, List.find?_eq_none, names, List.mem_map]
  constructor
  · rintro absent ⟨pair, member, named⟩
    exact absent pair member (by simpa using named)
  · intro absent pair member named
    exact absent ⟨pair, member, by simpa using named⟩

theorem mem_of_find? {name : Text} {entry : α} (found : a.find? name = some entry) : (name, entry) ∈ a.entries := by
  obtain ⟨pair, first, rfl⟩ := Option.map_eq_some_iff.mp found
  have named : pair.1 = name := by simpa using List.find?_some first
  rw [← named]
  exact List.mem_of_find?_eq_some first

/-- Tables that agree bind the same names, to entries that agree. -/
theorem find?_rel_of_agrees (agrees : a.agrees agree b = true) (x : Text) :
    Option.Rel (fun v w => agree v w = true) (a.find? x) (b.find? x) := by
  simp only [Table.agrees, Bool.and_eq_true, decide_eq_true_eq, List.all_eq_true] at agrees
  obtain ⟨length, entries⟩ := agrees
  have subset : a.names ⊆ b.names := by
    intro name inside
    obtain ⟨pair, member, rfl⟩ := List.mem_map.mp inside
    by_contra outside
    have entry := entries pair member
    rw [find?_eq_none_iff.mpr outside] at entry
    cases entry
  have perm : List.Perm a.names b.names :=
    (List.subperm_of_subset a.distinct subset).perm_of_length_le (by simp [names, length])
  cases found : a.find? x with
  | none =>
    have outside : x ∉ b.names := fun inside => find?_eq_none_iff.mp found (perm.mem_iff.mpr inside)
    rw [find?_eq_none_iff.mpr outside]
    exact .none
  | some v =>
    have entry := entries (x, v) (mem_of_find? found)
    cases found' : b.find? x with
    | none => simp [found'] at entry
    | some w => exact .some (by simpa [found'] using entry)

end Table

theorem Store.forall₂_of_agrees {store : Store} {a b : Env} (agrees : store.agrees a b = true) :
    List.Forall₂ (fun i j => (store.bindings i).agrees Value.agrees (store.bindings j) = true) a b := by
  induction a generalizing b with
  | nil =>
    cases b with
    | nil => exact .nil
    | cons j b => cases agrees
  | cons i a ih =>
    cases b with
    | nil => cases agrees
    | cons j b =>
      obtain ⟨here, outer⟩ := Bool.and_eq_true_iff.mp agrees
      exact .cons here (ih outer)

/-! ## What equality leaves open -/

/-- Data of one kind, quoted expressions, or closures in whose code literals of one kind stand in one place. -/
inductive Value.SameKind : Value → Value → Prop
  | atom {a b : Atom} (kinds : a.kind = b.kind) : SameKind (.atom a) (.atom b)
  | closure {c d : Closure} (kinds : c.body.Matches (fun a b => a.kind = b.kind) (fun _ _ => True) d.body) :
      SameKind (.closure c) (.closure d)
  | quoted (e f : Expr) : SameKind (.quoted e) (.quoted f)

/-- The frames that closures capture which an environment gives access to. -/
inductive Store.Captured (store : Store) (env : Env) : Nat → Prop
  | direct {frame x c i} (inside : frame ∈ env) (found : (store.bindings frame).find? x = some (.closure c))
      (captured : i ∈ c.env) : Captured store env i
  | further {frame x c i} (inside : Captured store env frame)
      (found : (store.bindings frame).find? x = some (.closure c)) (captured : i ∈ c.env) : Captured store env i

/-- The frames at one place in two environments stand for each other, and a frame that closures capture
    stands for itself. -/
def Store.Standing (store : Store) (a b : Env) : Pairing :=
  fun i j => (i, j) ∈ a.zip b ∨ i = j ∧ store.Captured a i

/-- Environments that bind data of one kind wherever their frames bind the same name, and whose frames are shared
    alike: a frame that stands for another one is not captured beside it. -/
structure Store.Interchangeable (store : Store) (a b : Env) : Prop where
  kinds : ∀ {i j}, (i, j) ∈ a.zip b → ∀ {x v w}, (store.bindings i).find? x = some v →
    (store.bindings j).find? x = some w → v.SameKind w
  shared : Relator.BiUnique (store.Standing a b)

/-- Values of one kind that are equal, but for which NaN it is and for the frames that closures capture. -/
inductive Value.Resembles : Value → Value → Prop
  | atom {a b : Atom} (kinds : a.kind = b.kind) (same : a.same b = true) : Resembles (.atom a) (.atom b)
  | nan (i j : Nat) : Resembles (.atom (.number (.float (.nan i)))) (.atom (.number (.float (.nan j))))
  | closure {c d : Closure} (params : c.params = d.params) (bodies : c.body.same d.body = true) :
      Resembles (.closure c) (.closure d)
  | quoted {e f : Expr} (same : e.same f = true) : Resembles (.quoted e) (.quoted f)

def Failure.Resembles : Failure → Failure → Prop := Failure.Rel Value.Resembles

def Outcome.Resembles : Outcome Value → Outcome Value → Prop := Outcome.Rel Value.Resembles Failure.Resembles

/-- Equality of outcomes of one kind, part by part. -/
def Outcome.same : Outcome Value → Outcome Value → Bool
  | .success v, .success w => v.agrees w
  | .failure e, .failure f => e.same f
  | .halted h, .halted h' => h = h'
  | _, _ => false

/-- The value that an outcome is, or that it complains of. -/
def Outcome.carried? : Outcome Value → Option Value
  | .success v => some v
  | .failure (.notCallable v) => some v
  | .failure (.notANumber _ v) => some v
  | _ => none

/-- A value that two runs can both come to: no NaN made since, and no closure over a frame that does not stand for
    itself. -/
def Value.Lasts (since : Nat) (standing : Pairing) : Value → Prop
  | .atom a => ∀ mark, a = .number (.float (.nan mark)) → mark < since
  | .closure c => ∀ frame ∈ c.env, standing frame frame
  | .quoted _ => True

section
variable {store : Store} {a b : Env} {paired : Pairing} {since : Nat}

theorem Value.agrees_refl (v : Value) : v.agrees v = true := by
  cases v with
  | atom a => exact a.same_refl
  | closure c => simp [agrees, Closure.same, Expr.same_refl]
  | quoted e => exact e.same_refl

theorem Value.sameKind_refl (v : Value) : v.SameKind v := by
  cases v with
  | atom a => exact .atom rfl
  | closure c =>
    refine .closure (Expr.Matches.refl ?_ ?_ c.body)
    · exact fun _ => rfl
    · exact fun _ => trivial
  | quoted e => exact .quoted e e

/-- Values of one kind that are equal match, if the frames that they capture stand for themselves. -/
theorem Value.SameKind.matches {v w : Value} (kinds : v.SameKind w) (agrees : v.agrees w = true)
    (captured : ∀ c, v = .closure c → ∀ i ∈ c.env, paired i i) : v.Matches (.numeric since) paired w := by
  cases kinds with
  | atom kinds => exact .atom (Atom.mapNumber_plainSince_eq since kinds agrees)
  | quoted e f => exact .quoted agrees
  | @closure c d kinds =>
    have same : c.same d = true := agrees
    simp only [Closure.same, Bool.and_eq_true, decide_eq_true_eq] at same
    refine .closure ⟨same.1.1, kinds.and_same same.1.2, ?_⟩
    rw [← same.2]
    exact List.forall₂_same.mpr (captured c rfl)

/-- What matches resembles each other. -/
theorem Value.Matches.resembles {v w : Value} (values : v.Matches (.numeric since) paired w) : v.Resembles w := by
  cases values with
  | closure closures => exact .closure closures.params closures.bodies.same
  | quoted quotes => exact .quoted quotes
  | @atom x y forms =>
    have kinds : x.kind = y.kind := by
      rw [← Atom.kind_mapNumber_plainSince since x, ← Atom.kind_mapNumber_plainSince since y]
      exact congrArg Atom.kind forms
    rcases Atom.same_of_mapNumber_plainSince forms with same | ⟨i, j, _, rfl, rfl⟩
    · exact .atom kinds same
    · exact .nan i j

theorem Outcome.Rel.resembles {o q : Outcome Value}
    (outcomes : o.Rel (Value.Matches (.numeric since) paired) (Failure.Rel (Value.Matches (.numeric since) paired)) q) :
    o.Resembles q := by
  have values : ∀ v w, Value.Matches (.numeric since) paired v w → v.Resembles w := fun _ _ => Value.Matches.resembles
  exact outcomes.imp values fun _ _ => Failure.Rel.imp values

/-- What matches is equal if two runs can both come to it. -/
theorem Value.Matches.agrees {standing : Pairing} {v w : Value} (values : v.Matches (.numeric since) paired w)
    (oneToOne : Relator.BiUnique paired) (stands : ∀ i j, standing i j → paired i j)
    (lasts : v.Lasts since standing) : v.agrees w = true := by
  cases values with
  | quoted quotes => exact quotes
  | @atom x y forms =>
    rcases Atom.same_of_mapNumber_plainSince forms with same | ⟨i, j, made, rfl, rfl⟩
    · exact same
    · exact absurd (lasts i rfl) (Nat.not_lt.mpr made)
  | @closure c d closures =>
    have kept : List.Forall₂ paired c.env c.env :=
      List.forall₂_same.mpr fun frame member => stands frame frame (lasts frame member)
    have env : c.env = d.env := oneToOne.forall₂.2 kept closures.captured
    change c.same d = true
    simp [Closure.same, closures.params, closures.bodies.same, env]

/-- Related outcomes are equal if the values that they carry are. -/
theorem Outcome.Rel.same {related : Value → Value → Prop} {o q : Outcome Value}
    (corresponds : o.Rel related (Failure.Rel related) q)
    (agrees : ∀ v w, o.carried? = some v → related v w → v.agrees w = true) : o.same q = true := by
  cases corresponds with
  | success values => exact agrees _ _ rfl values
  | halted h => simp [Outcome.same]
  | failure failures =>
    cases failures with
    | notCallable values => exact agrees _ _ rfl values
    | notANumber glyph values => simp [Outcome.same, Failure.same, agrees _ _ rfl values]
    | _ => simp [Outcome.same, Failure.same]

/-! ## Runs in equal environments -/

theorem Store.Captured.made (closed : store.Closed) {frame : Nat} (captured : store.Captured a frame) :
    frame < store.frames.size := by
  cases captured with
  | direct _ found captured => exact closed _ _ _ found _ rfl _ captured
  | further _ found captured => exact closed _ _ _ found _ rfl _ captured

theorem Store.made_standing (closed : store.Closed) (made : store.Made a) (made' : store.Made b) :
    (store.Standing a b).Made store.frames.size store.frames.size := by
  rintro i j (member | ⟨rfl, captured⟩)
  · obtain ⟨left, right⟩ := List.of_mem_zip member
    exact ⟨made i left, made' j right⟩
  · exact ⟨captured.made closed, captured.made closed⟩

/-- Frames that stand for each other bind every name to values that match. -/
theorem Store.Interchangeable.entries (interchangeable : store.Interchangeable a b) (equal : store.agrees a b = true)
    {i j : Nat} (pair : store.Standing a b i j) (x : Text) :
    Option.Rel (Value.Matches (.numeric since) (store.Standing a b)) ((store.bindings i).find? x)
      ((store.bindings j).find? x) := by
  rcases pair with member | ⟨rfl, captured⟩
  · have tables := (List.forall₂_iff_zip.mp (Store.forall₂_of_agrees equal)).2 member
    have entry := Table.find?_rel_of_agrees tables x
    generalize left : (store.bindings i).find? x = v at entry ⊢
    generalize right : (store.bindings j).find? x = w at entry ⊢
    cases entry with
    | none => exact .none
    | some agrees =>
      refine .some ((interchangeable.kinds member left right).matches agrees ?_)
      rintro c rfl frame inside
      exact .inr ⟨rfl, .direct (List.of_mem_zip member).1 left inside⟩
  · cases found : (store.bindings i).find? x with
    | none => exact .none
    | some v =>
      refine .some (v.sameKind_refl.matches v.agrees_refl ?_)
      rintro c rfl frame inside
      exact .inr ⟨rfl, .further captured found inside⟩

end

/-- Evaluation goes by equality of environments, where they bind data of one kind and share frames alike. Within so
    many levels neither run completes without the other, they end in the same way, and the outcomes are equal unless
    the value that they carry is a NaN that a run has made or a closure over a frame that does not stand for itself,
    which is one that a run has made or one at whose place the other environment has another. -/
theorem evaluate_of_agrees (channel : Channel) (levels : Nat) (e : Expr) {store : Store} {a b : Env}
    {before before' : Progress} (equal : store.agrees a b = true) (interchangeable : store.Interchangeable a b)
    (closed : store.Closed) (made : store.Made a) (made' : store.Made b) (grown : store.GrowsTo before.store)
    (grown' : store.GrowsTo before'.store) :
    ((evaluate channel levels e a before).1.Completed ↔ (evaluate channel levels e b before').1.Completed) ∧
      (evaluate channel levels e a before).1.Resembles (evaluate channel levels e b before').1 ∧
      ((∀ v, (evaluate channel levels e a before).1.carried? = some v →
          v.Lasts (min before.store.nextMark before'.store.nextMark) (store.Standing a b)) →
        (evaluate channel levels e a before).1.same (evaluate channel levels e b before').1 = true) := by
  have within := Store.made_standing closed made made'
  let tandem : Tandem :=
    .ofStore (.numeric (min before.store.nextMark before'.store.nextMark)) interchangeable.shared within grown grown'
      ⟨Nat.min_le_left _ _, Nat.min_le_right _ _⟩
  have start : tandem.Abreast 0 before before' :=
    Tandem.abreast_ofStore interchangeable.shared within grown grown' _ (interchangeable.entries equal)
  have code : tandem.tolerance.Code e e :=
    Expr.Matches.refl (fun x => ⟨rfl, x.same_refl⟩) (fun f => f.same_refl) e
  have frames : tandem.Envs 0 a b := by
    have places := List.forall₂_iff_zip.mp (Store.forall₂_of_agrees equal)
    exact List.forall₂_iff_zip.mpr ⟨places.1, fun member => .inl (.inl member)⟩
  obtain ⟨count, _, _, outcomes⟩ := tandem.goes channel levels code frames 0 before before' le_rfl start
  refine ⟨outcomes.completed_iff, outcomes.resembles, fun lasts => ?_⟩
  -- A frame that stood for itself before the runs still does, so a closure over it is equal on both sides.
  refine outcomes.same fun v w carried values => ?_
  exact Value.Matches.agrees values tandem.paired_oneToOne (fun _ _ => .inl) (lasts v carried)

/-- A function over the first frame that adds what is bound there. -/
def successor : Closure := ⟨[lit "m"], .binary (lit "+") (.var (lit "m")) (.var (lit "one")), [0]⟩

/-- What a frame binds that holds a zero of either sign and the function. -/
def signedZero (negative : Bool) : List (Text × Value) :=
  [(lit "x", .atom (.number (.float (.zero negative)))), (lit "next", .closure successor)]

/-- A frame that holds the function it is captured by, and two over it that differ in the sign of a zero. -/
def zerosStore : Store :=
  ⟨#[.ofPairs [(lit "one", .atom (.number (.integer 1))), (lit "next", .closure successor)],
    .ofPairs (signedZero false), .ofPairs (signedZero true)], 4⟩

theorem closure_of_find?_zerosStore {frame : Nat} {x : Text} {c : Closure}
    (found : (zerosStore.bindings frame).find? x = some (.closure c)) : c = successor := by
  have made : frame < 3 := Store.lt_size_of_find? found
  obtain rfl | rfl | rfl : frame = 0 ∨ frame = 1 ∨ frame = 2 := by omega
  all_goals
    have member := Table.mem_of_find?_ofPairs found
    have entry : x = lit "next" ∧ c = successor := by simpa [signedZero] using member
    exact entry.2

theorem eq_zero_of_captured {env : Env} {frame : Nat} (captured : zerosStore.Captured env frame) : frame = 0 := by
  cases captured with
  | direct _ found inside => simpa [closure_of_find?_zerosStore found, successor] using inside
  | further _ found inside => simpa [closure_of_find?_zerosStore found, successor] using inside

theorem interchangeable_zerosStore : zerosStore.Interchangeable [1, 0] [2, 0] := by
  have places : ∀ {i j}, (i, j) ∈ List.zip [1, 0] [2, 0] → i = 1 ∧ j = 2 ∨ i = 0 ∧ j = 0 := by
    intro i j member
    simpa using member
  have standing : ∀ {i j}, zerosStore.Standing [1, 0] [2, 0] i j → i = 1 ∧ j = 2 ∨ i = 0 ∧ j = 0 := by
    rintro i j (member | ⟨rfl, captured⟩)
    · exact places member
    · exact .inr ⟨eq_zero_of_captured captured, eq_zero_of_captured captured⟩
  refine ⟨fun {i j} member {x v w} left right => ?_, ?_, ?_⟩
  · rcases places member with ⟨rfl, rfl⟩ | ⟨rfl, rfl⟩
    · have pairs : List.Forall₂ (fun p q => p.1 = q.1 ∧ p.2.SameKind q.2) (signedZero false) (signedZero true) :=
        .cons ⟨rfl, .atom rfl⟩ (.cons ⟨rfl, Value.sameKind_refl _⟩ .nil)
      have entry : Option.Rel Value.SameKind ((zerosStore.bindings 1).find? x) ((zerosStore.bindings 2).find? x) :=
        Table.find?_ofPairs_rel pairs x
      rw [left, right] at entry
      cases entry with
      | some kinds => exact kinds
    · rw [Option.some.inj (left.symm.trans right)]
      exact w.sameKind_refl
  · intro i j i' pair pair'
    have first := standing pair
    have second := standing pair'
    omega
  · intro i j j' pair pair'
    have first := standing pair
    have second := standing pair'
    omega

def zeroTested : Expr :=
  .conditional (.unary (lit "zero?") (.var (lit "x"))) (.apply (.var (lit "next")) [.var (lit "one")]) (.var (lit "x"))

theorem evaluate_of_agrees_zeros :
    zerosStore.agrees [1, 0] [2, 0] = true ∧ zerosStore.Interchangeable [1, 0] [2, 0] ∧ zerosStore.Closed ∧
      zerosStore.Made [1, 0] ∧ zerosStore.Made [2, 0] ∧
      (evaluate .silence 20 zeroTested [1, 0] (.start zerosStore)).1.Resembles
        (evaluate .silence 20 zeroTested [2, 0] (.start zerosStore)).1 ∧
      (evaluate .silence 20 zeroTested [1, 0] (.start zerosStore)).1.same
        (evaluate .silence 20 zeroTested [2, 0] (.start zerosStore)).1 = true := by
  have equal : zerosStore.agrees [1, 0] [2, 0] = true := by decide +kernel
  have closed : zerosStore.Closed := by
    rintro frame x v found c rfl i inside
    rw [closure_of_find?_zerosStore found] at inside
    obtain rfl : i = 0 := by simpa [successor] using inside
    decide
  have made : zerosStore.Made [1, 0] := by simp [Store.Made, zerosStore]
  have made' : zerosStore.Made [2, 0] := by simp [Store.Made, zerosStore]
  have outcome : (evaluate .silence 20 zeroTested [1, 0] (.start zerosStore)).1 =
      .success (.atom (.number (.integer 2))) := rfl
  have grown : zerosStore.GrowsTo (Progress.start zerosStore).store := .refl zerosStore
  obtain ⟨_, resembles, same⟩ :=
    evaluate_of_agrees .silence 20 zeroTested equal interchangeable_zerosStore closed made made' grown grown
  refine ⟨equal, interchangeable_zerosStore, closed, made, made', resembles, same ?_⟩
  intro v carried
  rw [outcome] at carried
  obtain rfl := Option.some.inj carried
  exact fun mark same => by cases same

/-- Two frames that bind one name. -/
def sideBySide (v w : Value) : Store := ⟨#[.ofPairs [(lit "x", v)], .ofPairs [(lit "x", w)]], 8⟩

/-- Over either of the frames, which are equal, an expression has an outcome, the one run after the other, but the
    outcomes are not equal. -/
def Apart (store : Store) (e : Expr) : Prop :=
  store.agrees [0] [1] = true ∧ (evaluate .silence 20 e [0] (.start store)).1.Completed ∧
    (evaluate .silence 20 e [1] (evaluate .silence 20 e [0] (.start store)).2).1.Completed ∧
      (evaluate .silence 20 e [0] (.start store)).1.same
        (evaluate .silence 20 e [1] (evaluate .silence 20 e [0] (.start store)).2).1 = false

instance (store : Store) (e : Expr) : Decidable (Apart store e) := inferInstanceAs (Decidable (_ ∧ _ ∧ _ ∧ _))

def one : Atom := .number (.integer 1)

/-- The last of the numbers up to which every integer is a binary64 number, as an integer. -/
def lastExact : Atom := .number (.integer 9007199254740992)

/-- The same as a binary64 number. -/
def lastExactFloat : Atom :=
  .number (.float (.finite false ⟨4503599627370496, 1075, by decide, by decide, .inr (by decide)⟩))

def infinity : Atom := .number (.float (.infinite false))

/-- A function over the first frame. -/
def constantOne : Closure := ⟨[], .literal one, [0]⟩

theorem agrees_not_respected :
    Apart (sideBySide (.atom one) (.atom one)) (.lambda [] (.var (lit "x"))) ∧
      Apart (sideBySide (.closure constantOne) (.closure constantOne))
        (.binary (lit "=") (.var (lit "x")) (.lambda [] (.literal one))) ∧
      Apart (sideBySide (.atom (.boolean true)) (.atom one))
        (.conditional (.var (lit "x")) (.literal one) (.literal (.number (.integer 2)))) ∧
      Apart (sideBySide (.atom lastExact) (.atom lastExactFloat)) (.binary (lit "+") (.var (lit "x")) (.literal one)) ∧
      Apart (sideBySide (.atom infinity) (.atom infinity)) (.binary (lit "-") (.var (lit "x")) (.var (lit "x"))) := by
  decide +kernel

end CallByValue
