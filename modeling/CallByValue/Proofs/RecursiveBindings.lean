import CallByValue.Proofs.OrderOfNames

/-!
# Recursive bindings

Recursive bindings bind all their names at once: to closures over the very frame
that is made, of the last lambda that each name is given. So neither the order of
distinct names matters nor a lambda that a later one takes the place of. If
something else than a lambda is among them, nothing is evaluated.
-/

namespace CallByValue

/-- The first name that is bound to something else than a lambda. -/
def firstOther? (bindings : List (Text × Expr)) : Option Text :=
  (bindings.find? fun binding => !binding.2.isLambda).map (·.1)

theorem firstOther?_append {lambdas bindings : List (Text × Expr)} (all : ∀ b ∈ lambdas, b.2.isLambda = true) :
    firstOther? (lambdas ++ bindings) = firstOther? bindings := by
  have none : lambdas.find? (fun binding => !binding.2.isLambda) = none :=
    List.find?_eq_none.mpr fun b member => by simp [all b member]
  rw [firstOther?, List.find?_append, none, Option.none_or, firstOther?]

theorem lambdasOf_eq_error_iff_firstOther? {bindings : List (Text × Expr)} {name : Text} :
    lambdasOf bindings = .error name ↔ firstOther? bindings = some name := by
  induction bindings with
  | nil => exact ⟨nofun, nofun⟩
  | cons binding rest ih =>
    obtain ⟨other, e⟩ := binding
    cases h : e.isLambda with
    | false => simp [lambdasOf_cons_other h, firstOther?, h]
    | true =>
      cases e with
      | lambda params body =>
        rw [lambdasOf_cons_lambda]
        have skip : firstOther? ((other, .lambda params body) :: rest) = firstOther? rest := by simp [firstOther?, h]
        rw [skip, ← ih]
        cases lambdasOf rest <;> simp [Except.map]
      | _ => cases h

/-- A binding list is refused for a name, or it binds lambdas only. -/
theorem refused_or_lambdas (bindings : List (Text × Expr)) :
    (∃ name, firstOther? bindings = some name ∧ lambdasOf bindings = .error name) ∨
      ∃ lambdas, firstOther? bindings = none ∧ bindings = lambdaBindings lambdas := by
  cases accepted : lambdasOf bindings with
  | error name => exact .inl ⟨name, lambdasOf_eq_error_iff_firstOther?.mp accepted, rfl⟩
  | ok lambdas =>
    refine .inr ⟨lambdas, ?_, lambdasOf_eq_ok_iff.mp accepted⟩
    cases refused : firstOther? bindings with
    | none => rfl
    | some name =>
      rw [lambdasOf_eq_error_iff_firstOther?.mpr refused] at accepted
      cases accepted

/-! ## What a recursive frame binds -/

/-- The closure that a lambda becomes in an environment. -/
def closing (inner : Env) (lambda : List Text × Expr) : Value := .closure ⟨lambda.1, lambda.2, inner⟩

theorem find?_recursivePairs (lambdas : List (Text × List Text × Expr)) (inner : Env) (x : Text) :
    (Table.ofPairs (Eval.recursivePairs lambdas inner)).find? x =
      ((Table.ofPairs lambdas).find? x).map (closing inner) :=
  Table.find?_ofPairs_map (closing inner) lambdas x

theorem find?_lambdaBindings (lambdas : List (Text × List Text × Expr)) (x : Text) :
    (Table.ofPairs (lambdaBindings lambdas)).find? x =
      ((Table.ofPairs lambdas).find? x).map fun lambda => .lambda lambda.1 lambda.2 :=
  Table.find?_ofPairs_map (fun lambda : List Text × Expr => Expr.lambda lambda.1 lambda.2) lambdas x

/-- A name is bound to the closure of the lambda that it is given last. -/
theorem find?_recursivePairs_of_lambda {lambdas : List (Text × List Text × Expr)} {x : Text} {params : List Text}
    {code : Expr} (bound : (Table.ofPairs (lambdaBindings lambdas)).find? x = some (.lambda params code))
    (inner : Env) :
    (Table.ofPairs (Eval.recursivePairs lambdas inner)).find? x = some (.closure ⟨params, code, inner⟩) := by
  rw [find?_lambdaBindings] at bound
  obtain ⟨⟨ps, body⟩, found, same⟩ := Option.map_eq_some_iff.mp bound
  cases same
  rw [find?_recursivePairs, found]
  rfl

/-- Recursive frames bind the same if the lambdas bind the same. -/
theorem find?_recursivePairs_congr {lambdas others : List (Text × List Text × Expr)}
    (same : ∀ x, (Table.ofPairs (lambdaBindings lambdas)).find? x = (Table.ofPairs (lambdaBindings others)).find? x)
    (inner : Env) (x : Text) :
    (Table.ofPairs (Eval.recursivePairs lambdas inner)).find? x =
      (Table.ofPairs (Eval.recursivePairs others inner)).find? x := by
  have entries := same x
  rw [find?_lambdaBindings, find?_lambdaBindings] at entries
  have injective : Function.Injective fun lambda : List Text × Expr => Expr.lambda lambda.1 lambda.2 := by
    rintro ⟨params, body⟩ ⟨params', body'⟩ equal
    cases equal
    rfl
  rw [find?_recursivePairs, find?_recursivePairs, Option.map_injective injective entries]

theorem exists_last {bindings : List (Text × Expr)} {name : Text} (bound : name ∈ bindings.map (·.1)) :
    ∃ earlier e later, bindings = earlier ++ (name, e) :: later ∧ name ∉ later.map (·.1) := by
  induction bindings with
  | nil => cases bound
  | cons binding rest ih =>
    by_cases again : name ∈ rest.map (·.1)
    · obtain ⟨earlier, e, later, rfl, last⟩ := ih again
      exact ⟨binding :: earlier, e, later, rfl, last⟩
    · obtain rfl | further := List.mem_cons.mp bound
      · exact ⟨[], binding.2, rest, rfl, again⟩
      · exact absurd further again

theorem exists_of_isLambda {e : Expr} (lambda : e.isLambda = true) : ∃ params body, e = .lambda params body := by
  cases e with
  | lambda params body => exact ⟨params, body, rfl⟩
  | _ => cases lambda

/-! ## Evaluation -/

theorem evaluate_letRec_of_other (channel : Channel) (levels : Nat) {bindings : List (Text × Expr)} {name : Text}
    (other : firstOther? bindings = some name) (body : Expr) (env : Env) (before : Progress) :
    evaluate channel (levels + 1) (.letRec bindings body) env before = (.failure (.notAFunction name), before) := by
  rw [evaluate_letRec, lambdasOf_eq_error_iff_firstOther?.mpr other]
  rfl

/-- Clauses under distinct names in another order, or without one whose name is bound again to a lambda. -/
inductive Rearranged : List (Text × Expr) → List (Text × Expr) → Prop where
  | permuted {bindings others} (distinct : (bindings.map (·.1)).Nodup) (perm : bindings.Perm others) :
      Rearranged bindings others
  | dropped {earlier name e later params code} (again : (name, .lambda params code) ∈ later) :
      Rearranged (earlier ++ (name, e) :: later) (earlier ++ later)

theorem Rearranged.find?_eq {bindings others : List (Text × Expr)} (rearranged : Rearranged bindings others)
    (x : Text) : (Table.ofPairs bindings).find? x = (Table.ofPairs others).find? x := by
  cases rearranged with
  | permuted distinct perm => exact Table.find?_ofPairs_of_perm distinct perm x
  | dropped again => exact Table.find?_ofPairs_of_rebound _ (List.mem_map.mpr ⟨_, again, rfl⟩) _ x

/-- Rearranged clauses make a frame that reads alike, unless they are refused for different names. -/
theorem letRec_endsLike (channel : Channel) (levels : Nat) {bindings others : List (Text × Expr)}
    (rearranged : Rearranged bindings others) (refused : firstOther? bindings = firstOther? others) (body : Expr)
    (env : Env) (before : Progress) :
    EndsLike (evaluate channel levels (.letRec bindings body) env before)
      (evaluate channel levels (.letRec others body) env before) := by
  cases levels with
  | zero => exact .refl _
  | succ levels =>
    rcases refused_or_lambdas bindings with ⟨name, other, _⟩ | ⟨lambdas, none, rfl⟩
    · rw [evaluate_letRec_of_other channel levels other, evaluate_letRec_of_other channel levels (refused ▸ other)]
      exact .refl _
    · rcases refused_or_lambdas others with ⟨name, other, _⟩ | ⟨lambdas', _, rfl⟩
      · rw [none, other] at refused
        cases refused
      · -- Either frame gets the same number, so the closures in it are the same: only their order may differ.
        rw [evaluate_letRec_of_lambdas, evaluate_letRec_of_lambdas]
        have stores := (Store.ReadsLike.refl before.store).push
          (find?_recursivePairs_congr rearranged.find?_eq (before.store.next env))
        exact (evaluate_byName channel levels body (before.store.next env) before.said stores).toEndsLike

/-- Recursive bindings bind all names at once, in any order. If something else than a lambda is among them, they are
    refused for the first such name, and nothing is evaluated. Otherwise the body runs in one new frame, in which
    every bound name is the closure over that frame of the lambda that it is given last, and every other name is
    what it was. So rearranging the clauses changes nothing, if they are refused for one name or, being lambdas, for
    none. -/
theorem letRec_binds_at_once (channel : Channel) :
    (∀ levels earlier name e later body env before, (∀ b ∈ earlier, b.2.isLambda = true) → e.isLambda = false →
      evaluate channel (levels + 1) (.letRec (earlier ++ (name, e) :: later) body) env before =
        (.failure (.notAFunction name), before)) ∧
    (∀ (bindings : List (Text × Expr)) body env before, (∀ b ∈ bindings, b.2.isLambda = true) →
      ∃ table : Table Value,
        (∀ levels, evaluate channel (levels + 1) (.letRec bindings body) env before =
          evaluate channel levels body (before.store.next env) (before.push table)) ∧
        (∀ name ∈ bindings.map (·.1), ∃ earlier params code later,
          bindings = earlier ++ (name, .lambda params code) :: later ∧ name ∉ later.map (·.1) ∧
          (before.push table).store.lookup name (before.store.next env) =
            some (.closure ⟨params, code, before.store.next env⟩)) ∧
        ∀ name, name ∉ bindings.map (·.1) → before.store.Made env →
          (before.push table).store.lookup name (before.store.next env) = before.store.lookup name env) ∧
    ∀ levels bindings others body env before, Rearranged bindings others →
      firstOther? bindings = firstOther? others →
        EndsLike (evaluate channel levels (.letRec bindings body) env before)
          (evaluate channel levels (.letRec others body) env before) := by
  refine ⟨fun levels earlier name e later body env before lambdas other => ?_,
    fun bindings body env before all => ?_,
    fun levels bindings others body env before rearranged refused =>
      letRec_endsLike channel levels rearranged refused body env before⟩
  · refine evaluate_letRec_of_other channel levels ?_ body env before
    rw [firstOther?_append lambdas]
    simp [firstOther?, other]
  · have none : firstOther? bindings = none := by
      rw [← List.append_nil bindings, firstOther?_append all]
      rfl
    rcases refused_or_lambdas bindings with ⟨name, other, _⟩ | ⟨lambdas, _, rfl⟩
    · rw [none] at other
      cases other
    · refine ⟨_, fun levels => evaluate_letRec_of_lambdas channel levels lambdas body env before,
        fun name bound => ?_, fun name unbound made => ?_⟩
      · obtain ⟨earlier, e, later, split, last⟩ := exists_last bound
        obtain ⟨params, code, rfl⟩ := exists_of_isLambda (all (name, e) (by simp [split]))
        have entry := Table.find?_ofPairs_last earlier last (Expr.lambda params code)
        rw [← split] at entry
        exact ⟨earlier, params, code, later, split, last,
          Store.lookup_push_of_find? (find?_recursivePairs_of_lambda entry _) before.store env⟩
      · have absent : (Table.ofPairs (Eval.recursivePairs lambdas (before.store.next env))).find? name = .none := by
          rw [names_lambdaBindings] at unbound
          rw [find?_recursivePairs, Table.find?_ofPairs_eq_none.mpr unbound]
          rfl
        change (before.store.push _).lookup name _ = _
        rw [Store.lookup_push_next made, absent, Option.none_or]

/-- A function that asks another one about the number before, and answers for zero itself. -/
def askedOf (other : Text) (answer : Bool) : Expr :=
  .lambda [lit "n"] (.conditional (.unary (lit "zero?") (.var (lit "n"))) (.literal (.boolean answer))
    (.apply (.var other) [.binary (lit "-") (.var (lit "n")) (.literal (.number (.integer 1)))]))

/-- Two functions that tell by each other whether a number is even or odd. -/
def parity : List (Text × Expr) :=
  [(lit "even", askedOf (lit "odd") true), (lit "odd", askedOf (lit "even") false)]

def threeIsEven : Expr := .apply (.var (lit "even")) [.literal (.number (.integer 3))]

theorem letRec_binds_at_once_parity :
    evaluate .silence 30
        (.letRec ([(lit "even", askedOf (lit "odd") true)] ++ (lit "odd", .literal (.boolean false)) :: parity)
          threeIsEven) [] (.start .empty) = (.failure (.notAFunction (lit "odd")), .start .empty) ∧
      (∃ table : Table Value,
        (∃ params code, ((Progress.start .empty).push table).store.lookup (lit "odd") [0] =
          some (.closure ⟨params, code, [0]⟩)) ∧
        ((Progress.start .empty).push table).store.lookup (lit "n") [0] = none) ∧
      EndsLike (evaluate .silence 30 (.letRec parity threeIsEven) [] (.start .empty))
        (evaluate .silence 30 (.letRec parity.reverse threeIsEven) [] (.start .empty)) ∧
      EndsLike
        (evaluate .silence 30 (.letRec ([] ++ (lit "even", askedOf (lit "even") false) :: parity) threeIsEven) []
          (.start .empty))
        (evaluate .silence 30 (.letRec ([] ++ parity) threeIsEven) [] (.start .empty)) ∧
      (evaluate .silence 30 (.letRec parity threeIsEven) [] (.start .empty)).1 = .success (.truth false) := by
  obtain ⟨refused, bound, same⟩ := letRec_binds_at_once .silence
  have lambdas : ∀ b ∈ parity, b.2.isLambda = true := by decide
  refine ⟨refused 29 _ _ _ parity _ _ _ (by decide) rfl, ?_, ?_, ?_, rfl⟩
  · obtain ⟨table, _, closures, others⟩ := bound parity threeIsEven [] (.start .empty) lambdas
    obtain ⟨_, params, code, _, _, _, found⟩ := closures (lit "odd") (by decide)
    exact ⟨table, ⟨params, code, found⟩, others (lit "n") (by decide) (Store.made_nil _)⟩
  · exact same 30 _ _ _ _ _ (.permuted (by decide) (List.reverse_perm parity).symm) (by decide)
  · exact same 30 _ _ _ _ _ (.dropped (List.mem_cons_self)) (by decide)

end CallByValue
