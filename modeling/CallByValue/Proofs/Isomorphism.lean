import CallByValue.Proofs.Lockstep

/-!
# Isomorphic environments

Frames are numbered, but programs learn of the numbers only whether two closures
share a frame. Where the frames of two environments are paired one to one, so
that they have the same names, the same data and corresponding closures, nothing
that is evaluated in them can be told apart. Cycles among the frames do no harm:
the pairing speaks of all of them at once.
-/

namespace CallByValue

/-- One lambda over frames that stand for each other. -/
structure Closure.Twins (pairing : Pairing) (c d : Closure) : Prop where
  params : c.params = d.params
  body : c.body = d.body
  captured : List.Forall₂ pairing c.env d.env

/-- Values that differ only in the frames that closures capture, and in the marks of NaNs. -/
def Value.Twins (pairing : Pairing) : Value → Value → Prop := Value.Rel (Closure.Twins pairing)

/-- Failures that differ only so far in the value they complain of. -/
def Failure.Twins (pairing : Pairing) : Failure → Failure → Prop := Failure.Rel (Value.Twins pairing)

/-- Frames of two stores are paired one to one, and the paired ones bind the same names to data that are
    the same and to closures that correspond. -/
structure Store.Isomorphic (pairing : Pairing) (store store' : Store) : Prop where
  oneToOne : Relator.BiUnique pairing
  made : pairing.Made store.frames.size store'.frames.size
  entries : ∀ {i j}, pairing i j → ∀ x,
    Option.Rel (Value.Twins pairing) ((store.bindings i).find? x) ((store'.bindings j).find? x)

/-- Two runs that cannot be told apart. Neither completes without the other, they say the same, and they
    have made equally many frames, which continue the pairing; under it the outcomes correspond, so that
    a person is told the same. -/
structure RunsIsomorphic (pairing : Pairing) (before before' : Progress) (run run' : Outcome Value × Progress) :
    Prop where
  completed : run.1.Completed ↔ run'.1.Completed
  said : ∃ spoken, run.2.said.toList = before.said.toList ++ spoken ∧
    run'.2.said.toList = before'.said.toList ++ spoken
  extended : ∃ count, run.2.store.frames.size = before.store.frames.size + count ∧
    run'.2.store.frames.size = before'.store.frames.size + count ∧
    run.2.store.Isomorphic (pairing.extended before.store.frames.size before'.store.frames.size count)
      run'.2.store ∧
    run.1.Rel (Value.Twins (pairing.extended before.store.frames.size before'.store.frames.size count))
      (Failure.Twins (pairing.extended before.store.frames.size before'.store.frames.size count)) run'.1
  answer : ∀ granted, run.1.answer granted = run'.1.answer granted

section
variable {pairing : Pairing}

theorem Value.Twins.alike {v w : Value} (twins : v.Twins pairing w) : v.Alike w :=
  Value.Rel.imp (fun _ _ closures => ⟨closures.params, closures.body⟩) twins

theorem Failure.Twins.alike {e f : Failure} (twins : e.Twins pairing f) : e.Alike f :=
  Failure.Rel.imp (fun _ _ values => values.alike) twins

theorem Value.Twins.matches {v w : Value} (twins : v.Twins pairing w) : v.Matches .exact pairing w := by
  cases twins with
  | @atom a b same =>
    refine .atom ?_
    rw [Atom.unmarked_eq_mapNumber, Atom.unmarked_eq_mapNumber] at same
    exact same
  | @closure c d closures =>
    refine .closure ⟨closures.params, ?_, closures.captured⟩
    rw [closures.body]
    exact Expr.Matches.refl (fun _ => rfl) (fun _ => rfl) d.body
  | quoted e => exact .quoted rfl

theorem Value.Matches.twins {v w : Value} (values : v.Matches .exact pairing w) : v.Twins pairing w := by
  cases values with
  | @atom a b forms =>
    refine .atom ?_
    rw [Atom.unmarked_eq_mapNumber, Atom.unmarked_eq_mapNumber]
    exact forms
  | closure closures => exact .closure ⟨closures.params, Expr.Matches.eq closures.bodies, closures.captured⟩
  | @quoted e f same =>
    obtain rfl : e = f := same
    exact .quoted e

end

/-- Frame identity is observable only through sharing: over isomorphic environments the runs of every
    expression, under every budget and into every channel, cannot be told apart. -/
theorem evaluate_isomorphic (channel : Channel) (levels : Nat) (e : Expr) {pairing : Pairing}
    {before before' : Progress} {a b : Env} (isomorphic : before.store.Isomorphic pairing before'.store)
    (envs : List.Forall₂ pairing a b) :
    RunsIsomorphic pairing before before' (evaluate channel levels e a before)
      (evaluate channel levels e b before') := by
  let tandem : Tandem :=
    ⟨.exact, pairing, before, before', isomorphic.oneToOne, isomorphic.made, Nat.zero_le _, Nat.zero_le _⟩
  have start : tandem.Abreast 0 before before' := tandem.abreast_start fun pair x =>
    Option.Rel.imp (fun _ _ twins => twins.matches) (isomorphic.entries pair x)
  have code : tandem.tolerance.Code e e := Expr.Matches.refl (fun _ => rfl) (fun _ => rfl) e
  have frames : tandem.Envs 0 a b := envs.imp fun _ _ => .inl
  obtain ⟨count, _, abreast, outcomes⟩ := tandem.goes channel levels code frames 0 before before' le_rfl start
  have twins : ∀ v w, tandem.Values count v w → v.Twins (tandem.paired count) w := fun _ _ values => values.twins
  have results := outcomes.imp twins fun _ _ => Failure.Rel.imp twins
  have alike : (evaluate channel levels e a before).1.Alike (evaluate channel levels e b before').1 :=
    results.imp (fun _ _ => Value.Twins.alike) fun _ _ => Failure.Twins.alike
  obtain ⟨spoken, spoken', left, right, same⟩ := abreast.said
  obtain rfl : spoken = spoken' := List.forall₂_eq_eq_eq ▸ same
  refine ⟨outcomes.completed_iff, ⟨spoken, left, right⟩, ⟨count, abreast.left, abreast.right, ?_, results⟩,
    Outcome.Alike.answer_eq alike⟩
  refine ⟨tandem.paired_oneToOne, ?_, fun pair x => Option.Rel.imp twins (abreast.frames pair x)⟩
  rw [abreast.left, abreast.right]
  exact isomorphic.made.extended count

/-- What a frame binds that holds a function which gives itself and so captures the frame. -/
def knot (frame : Nat) : List (Text × Value) :=
  [(lit "self", .closure ⟨[], .var (lit "self"), [frame]⟩), (lit "n", .atom (.number (.integer 3)))]

def knotStore : Store := ⟨#[.ofPairs (knot 0)], 1⟩

/-- The same knot behind another frame. -/
def knotBehindStore : Store := ⟨#[.ofPairs [(lit "n", .atom (.boolean true))], .ofPairs (knot 1)], 7⟩

/-- Says a name, and gives a function over the frame if the knot gives itself. -/
def untied : Expr :=
  .sequence (.unary (lit "say") (.var (lit "self")))
    [.conditional (.binary (lit "=") (.apply (.var (lit "self")) []) (.var (lit "self")))
      (.lambda [lit "m"] (.binary (lit "+") (.var (lit "m")) (.var (lit "n")))) (.var (lit "lost"))]

theorem evaluate_isomorphic_knot :
    knotStore.Isomorphic (fun i j => i = 0 ∧ j = 1) knotBehindStore ∧
      RunsIsomorphic (fun i j => i = 0 ∧ j = 1) (.start knotStore) (.start knotBehindStore)
        (evaluate .console 20 untied [0] (.start knotStore))
        (evaluate .console 20 untied [1] (.start knotBehindStore)) := by
  have isomorphic : knotStore.Isomorphic (fun i j => i = 0 ∧ j = 1) knotBehindStore := by
    refine ⟨⟨?_, ?_⟩, ?_, ?_⟩
    · rintro i j i' ⟨rfl, rfl⟩ ⟨rfl, _⟩
      rfl
    · rintro i j j' ⟨rfl, rfl⟩ ⟨_, rfl⟩
      rfl
    · rintro i j ⟨rfl, rfl⟩
      decide
    · rintro i j ⟨rfl, rfl⟩ x
      have pairs : List.Forall₂ (fun p q => p.1 = q.1 ∧ Value.Twins (fun i j => i = 0 ∧ j = 1) p.2 q.2)
          (knot 0) (knot 1) :=
        .cons ⟨rfl, .closure ⟨rfl, rfl, .cons ⟨rfl, rfl⟩ .nil⟩⟩ (.cons ⟨rfl, .atom rfl⟩ .nil)
      exact Table.find?_ofPairs_rel pairs x
  exact ⟨isomorphic, evaluate_isomorphic .console 20 untied isomorphic (.cons ⟨rfl, rfl⟩ .nil)⟩

end CallByValue
