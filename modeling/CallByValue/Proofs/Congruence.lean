import CallByValue.Proofs.Idempotence

/-!
# Equal functions

Functions that the language calls equal have the same parameters, the same code
and the very same frame. Sameness of code does not keep the kinds of literals
apart, so equal functions need not give equal results. Where the literals are of
one kind as well, place by place, calls of equal functions end in the same way.
-/

namespace CallByValue

/-- A boolean, a text, or a number other than a NaN. -/
def Value.IsDatum : Value → Prop
  | .atom a => ∀ mark, a ≠ .number (.float (.nan mark))
  | _ => False

/-- Data that resemble each other are equal in the language. -/
theorem Value.Resembles.sameValue {v w : Value} (resembles : v.Resembles w) (datum : v.IsDatum ∨ w.IsDatum) :
    v.sameValue w = true := by
  cases resembles with
  | closure params bodies => exact datum.elim False.elim False.elim
  | quoted same => exact datum.elim False.elim False.elim
  | nan i j =>
    rcases datum with left | right
    · exact absurd rfl (left i)
    · exact absurd rfl (right j)
  | @atom a b kinds same =>
    rcases Atom.cases_of_kind kinds same with ⟨m, n, rfl, rfl, numbers⟩ | ⟨rfl, other⟩
    · have denoted := Number.denoted_eq_of_same numbers
      refine Number.equals_iff.mpr ⟨denoted, fun nothing => ?_⟩
      rcases datum with left | right
      · obtain ⟨mark, rfl⟩ := Number.exists_of_denoted_eq_nothing nothing
        exact left mark rfl
      · obtain ⟨mark, rfl⟩ := Number.exists_of_denoted_eq_nothing (denoted ▸ nothing)
        exact right mark rfl
    · cases a with
      | number n => exact absurd rfl (other n)
      | _ => simp [Value.sameValue]

/-- Frames that have been made stand for themselves. -/
def Pairing.itself (size : Nat) : Pairing := fun i j => i = j ∧ i < size

theorem Pairing.oneToOne_itself (size : Nat) : Relator.BiUnique (itself size) := by
  constructor
  · rintro i j i' ⟨rfl, _⟩ ⟨rfl, _⟩
    rfl
  · rintro i j j' ⟨rfl, _⟩ ⟨rfl, _⟩
    rfl

/-- A value over frames that have been made matches itself. -/
theorem Value.Made.matches {store : Store} {v : Value} (made : v.Made store) :
    v.Matches (.numeric 0) (Pairing.itself store.frames.size) v :=
  v.sameKind_refl.matches v.agrees_refl fun c same i inside => ⟨rfl, made c same i inside⟩

/-- Equality in the language is a congruence for calls, where it goes by the kinds of literals: if equal closures are
    called with the same values, neither call completes without the other, they end in the same way, and the
    results are equal if one of them is a boolean, a text, or a number other than a NaN. -/
theorem call_of_sameValue (channel : Channel) (levels : Nat) {store : Store} {c d : Closure} {vs : List Value}
    {before before' : Progress} (equal : (Value.closure c).sameValue (.closure d) = true)
    (kinds : (Value.closure c).SameKind (.closure d)) (closed : store.Closed) (made : store.Made c.env)
    (given : ∀ v ∈ vs, v.Made store) (grown : store.GrowsTo before.store) (grown' : store.GrowsTo before'.store) :
    ((c.call channel levels vs before).1.Completed ↔ (d.call channel levels vs before').1.Completed) ∧
      (c.call channel levels vs before).1.Resembles (d.call channel levels vs before').1 ∧
      ∀ v w, (c.call channel levels vs before).1 = .success v → (d.call channel levels vs before').1 = .success w →
        v.IsDatum ∨ w.IsDatum → v.sameValue w = true := by
  have within : (Pairing.itself store.frames.size).Made store.frames.size store.frames.size := by
    rintro i j ⟨rfl, inside⟩
    exact ⟨inside, inside⟩
  let tandem : Tandem := .ofStore (.numeric 0) (Pairing.oneToOne_itself _) within grown grown'
    ⟨Nat.zero_le _, Nat.zero_le _⟩
  have start : tandem.Abreast 0 before before' := by
    refine Tandem.abreast_ofStore (Pairing.oneToOne_itself _) within grown grown' _ ?_
    rintro i j ⟨rfl, inside⟩ x
    cases found : (store.bindings i).find? x with
    | none => exact .none
    | some v => exact .some (closed i x v found).matches
  have closures : (Value.closure c).Matches (.numeric 0) (Pairing.itself store.frames.size) (.closure d) :=
    kinds.matches equal fun c' same i inside => by
      obtain rfl := Value.closure.inj same
      exact ⟨rfl, made i inside⟩
  have later : ∀ {v w}, v.Matches (.numeric 0) (Pairing.itself store.frames.size) w → tandem.Values 0 v w :=
    fun values => values.imp fun _ _ => .inl
  have arguments : Tandem.Together.All tandem 0 vs vs :=
    List.forall₂_same.mpr fun v member => later (given v member).matches
  cases later closures with
  | closure matching =>
    have goes : tandem.Goes channel levels := tandem.goes channel levels
    obtain ⟨count, _, _, outcomes⟩ := goes.call matching arguments 0 before before' le_rfl start
    have results := outcomes.resembles
    refine ⟨outcomes.completed_iff, results, fun v w left right datum => ?_⟩
    rw [left, right] at results
    cases results with
    | success values => exact values.sameValue datum

/-- A function that says some datum and gives back what it is called with if a number is zero. -/
def echoing (said tested : Atom) : Closure :=
  ⟨[lit "m"], .sequence (.unary (lit "say") (.literal said))
    [.conditional (.unary (lit "zero?") (.literal tested)) (.var (lit "m")) (.literal one)], []⟩

theorem call_of_sameValue_echoing :
    (Value.closure (echoing (.boolean true) (.number (.float (.zero false))))).sameValue
        (.closure (echoing one (.number (.float (.zero true))))) = true ∧
      (Value.closure (echoing (.boolean true) (.number (.float (.zero false))))).SameKind
        (.closure (echoing one (.number (.float (.zero true))))) ∧
      ((echoing (.boolean true) (.number (.float (.zero false)))).call .recorder 20 [.atom infinity]
          (.start .empty)).1.Resembles
        ((echoing one (.number (.float (.zero true)))).call .recorder 20 [.atom infinity] (.start .empty)).1 ∧
      (Value.atom infinity).sameValue (.atom infinity) = true := by
  have equal : (Value.closure (echoing (.boolean true) (.number (.float (.zero false))))).sameValue
      (.closure (echoing one (.number (.float (.zero true))))) = true := by decide +kernel
  have kinds : (Value.closure (echoing (.boolean true) (.number (.float (.zero false))))).SameKind
      (.closure (echoing one (.number (.float (.zero true))))) := by
    have other : lit "zero?" ≠ UnaryOperator.say.glyph := by decide
    exact .closure (.sequence (.say trivial)
      (.cons (.conditional (.unary other (.literal rfl)) (.var _) (.literal rfl)) .nil))
  have given : ∀ v ∈ [Value.atom infinity], v.Made .empty := by
    intro v member
    rw [List.mem_singleton.mp member]
    exact Value.made_atom infinity
  have grown : Store.empty.GrowsTo (Progress.start .empty).store := .refl _
  obtain ⟨_, resembles, results⟩ :=
    call_of_sameValue .recorder 20 equal kinds Store.closed_empty (Store.made_nil _) given grown grown
  exact ⟨equal, kinds, resembles, results _ _ rfl rfl (.inl fun mark same => by cases same)⟩

/-- A function without parameters. -/
def thunk (body : Expr) : Closure := ⟨[], body, []⟩

theorem sameValue_not_congruent :
    (Value.closure (thunk (.literal (.boolean true)))).sameValue (.closure (thunk (.literal one))) = true ∧
      ((thunk (.literal (.boolean true))).call .silence 20 [] (.start .empty)).1 = .success (.atom (.boolean true)) ∧
      ((thunk (.literal one)).call .silence 20 [] (.start .empty)).1 = .success (.atom one) ∧
      (Value.atom (.boolean true)).sameValue (.atom one) = false ∧
      (Value.closure (thunk (.binary (lit "+") (.literal lastExact) (.literal one)))).sameValue
        (.closure (thunk (.binary (lit "+") (.literal lastExactFloat) (.literal one)))) = true ∧
      ((thunk (.binary (lit "+") (.literal lastExact) (.literal one))).call .silence 20 [] (.start .empty)).1.same
        ((thunk (.binary (lit "+") (.literal lastExactFloat) (.literal one))).call .silence 20 [] (.start .empty)).1 =
          false := by
  refine ⟨rfl, rfl, rfl, rfl, ?_⟩
  decide +kernel

end CallByValue
