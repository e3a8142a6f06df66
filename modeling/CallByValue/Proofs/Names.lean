import CallByValue.Operators

/-!
# Free names

The names that an expression takes from its environment. What `say` says is
never evaluated, so the names in it are not free. A scope tells which names may
be used in any way and which may only be called, with one argument.
-/

namespace CallByValue.Expr

mutual

/-- The free names of an expression, in the order of the text, with repeats. -/
def free : Expr → List Text
  | .literal _ => []
  | .var x => [x]
  | .binary _ a b => free a ++ free b
  | .unary g a => if g = UnaryOperator.say.glyph then [] else free a
  | .conditional a b c => free a ++ free b ++ free c
  | .lambda ps a => (free a).filter (· ∉ ps)
  | .apply f as => free f ++ freeInAll as
  | .letIn bs a => freeInBindings bs ++ (free a).filter (· ∉ bs.map (·.1))
  | .letRec bs a => (freeInBindings bs ++ free a).filter (· ∉ bs.map (·.1))
  | .sequence a as => free a ++ freeInAll as
  | .fix a => free a

def freeInAll : List Expr → List Text
  | [] => []
  | a :: as => free a ++ freeInAll as

def freeInBindings : List (Text × Expr) → List Text
  | [] => []
  | (_, a) :: as => free a ++ freeInBindings as

end

/-! ## The combinator -/

/-- The self-application that waits for an argument. -/
def again : Expr := .apply (.apply (.var (lit "x")) [.var (lit "x")]) [.var (lit "v")]

/-- What the wrapper does with itself: it passes the functional a function that starts it again. -/
def wrapped : Expr := .apply (.var (lit "f")) [.lambda [lit "v"] again]

/-- The wrapper that is applied to itself. -/
def wrapper : Expr := .lambda [lit "x"] wrapped

/-- The combinator that a functional is passed to. -/
def combinator : Expr := .lambda [lit "f"] (.apply wrapper [wrapper])

theorem fixedPoint_eq (functional : Expr) : fixedPoint functional = .apply combinator [functional] := rfl

theorem free_combinator : combinator.free = [] := by decide

/-! ## Scopes -/

/-- Which names may be used in any way, and which may only be called, with one argument. -/
structure Scope where
  plain : Text → Prop
  called : Text → Prop

namespace Scope

/-- The scope inside a form that binds names. -/
def bind (scope : Scope) (names : List Text) : Scope :=
  ⟨fun x => x ∈ names ∨ scope.plain x, fun x => x ∉ names ∧ scope.called x⟩

/-- The scope of names that may be used in any way, beside which nothing may be called. -/
def only (plain : Text → Prop) : Scope := ⟨plain, fun _ => False⟩

/-- What one scope allows the other allows too. -/
def Below (inner outer : Scope) : Prop :=
  (∀ x, inner.plain x → outer.plain x) ∧ ∀ x, inner.called x → outer.plain x ∨ outer.called x

theorem Below.bind {inner outer : Scope} (below : inner.Below outer) (names : List Text) :
    (inner.bind names).Below (outer.bind names) := by
  constructor
  · rintro x (bound | plain)
    · exact .inl bound
    · exact .inr (below.1 x plain)
  · rintro x ⟨unbound, called⟩
    rcases below.2 x called with plain | called
    · exact .inl (.inr plain)
    · exact .inr ⟨unbound, called⟩

/-- Binding names takes nothing away. -/
theorem below_bind (scope : Scope) (names : List Text) : scope.Below (scope.bind names) := by
  refine ⟨fun _ plain => .inr plain, fun x called => ?_⟩
  by_cases bound : x ∈ names
  · exact .inl (.inl bound)
  · exact .inr ⟨bound, called⟩

end Scope

mutual

/-- Every free occurrence of a name is one that the scope allows. -/
def Within (s : Scope) : Expr → Prop
  | .literal _ => True
  | .var x => s.plain x
  | .binary _ a b => Within s a ∧ Within s b
  | .unary g a => g = UnaryOperator.say.glyph ∨ Within s a
  | .conditional a b c => Within s a ∧ Within s b ∧ Within s c
  | .lambda ps a => Within (s.bind ps) a
  | .apply f as => (Within s f ∨ ∃ x arg, f = .var x ∧ as = [arg] ∧ s.called x) ∧ WithinAll s as
  | .letIn bs a => WithinBindings s bs ∧ Within (s.bind (bs.map (·.1))) a
  | .letRec bs a => WithinBindings (s.bind (bs.map (·.1))) bs ∧ Within (s.bind (bs.map (·.1))) a
  | .sequence a as => Within s a ∧ WithinAll s as
  | .fix a => Within s a

def WithinAll (s : Scope) : List Expr → Prop
  | [] => True
  | a :: as => Within s a ∧ WithinAll s as

def WithinBindings (s : Scope) : List (Text × Expr) → Prop
  | [] => True
  | (_, a) :: as => Within s a ∧ WithinBindings s as

end

theorem withinAll_iff {s : Scope} {es : List Expr} : WithinAll s es ↔ ∀ e ∈ es, e.Within s := by
  induction es with
  | nil => simp [WithinAll]
  | cons e es ih => simp [WithinAll, ih]

theorem withinBindings_iff {s : Scope} {bs : List (Text × Expr)} :
    WithinBindings s bs ↔ ∀ e ∈ bs.map (·.2), e.Within s := by
  induction bs with
  | nil => simp [WithinBindings]
  | cons b bs ih => simp [WithinBindings, ih]

mutual

/-- A wider scope allows as much. -/
theorem Within.widen {s t : Scope} (below : s.Below t) : ∀ {e : Expr}, e.Within s → e.Within t
  | .literal _, _ => trivial
  | .var x, h => below.1 x h
  | .binary _ _ _, ⟨ha, hb⟩ => ⟨ha.widen below, hb.widen below⟩
  | .unary _ _, h => h.imp id (·.widen below)
  | .conditional _ _ _, ⟨ha, hb, hc⟩ => ⟨ha.widen below, hb.widen below, hc.widen below⟩
  | .lambda ps a, h => Within.widen (below.bind ps) (e := a) h
  | .apply f as, ⟨hf, has⟩ => by
    refine ⟨?_, WithinAll.widen below has⟩
    rcases hf with hf | ⟨x, arg, rfl, rfl, called⟩
    · exact .inl (hf.widen below)
    · exact (below.2 x called).imp id fun called => ⟨x, arg, rfl, rfl, called⟩
  | .letIn bs a, ⟨hbs, ha⟩ => ⟨WithinBindings.widen below hbs, Within.widen (below.bind _) (e := a) ha⟩
  | .letRec bs a, ⟨hbs, ha⟩ =>
    ⟨WithinBindings.widen (below.bind _) hbs, Within.widen (below.bind _) (e := a) ha⟩
  | .sequence _ _, ⟨ha, has⟩ => ⟨ha.widen below, WithinAll.widen below has⟩
  | .fix a, h => Within.widen below (e := a) h

theorem WithinAll.widen {s t : Scope} (below : s.Below t) : ∀ {es : List Expr}, WithinAll s es → WithinAll t es
  | [], _ => trivial
  | _ :: _, ⟨ha, has⟩ => ⟨ha.widen below, WithinAll.widen below has⟩

theorem WithinBindings.widen {s t : Scope} (below : s.Below t) :
    ∀ {bs : List (Text × Expr)}, WithinBindings s bs → WithinBindings t bs
  | [], _ => trivial
  | (_, _) :: _, ⟨ha, has⟩ => ⟨ha.widen below, WithinBindings.widen below has⟩

end

theorem Scope.plain_bind_of_filter {s : Scope} {names free : List Text}
    (plain : ∀ x ∈ free.filter (· ∉ names), s.plain x) : ∀ x ∈ free, (s.bind names).plain x := by
  intro x member
  by_cases bound : x ∈ names
  · exact .inl bound
  · exact .inr (plain x (by simp [member, bound]))

mutual

/-- An expression is within every scope in which its free names may be used in any way. -/
theorem within_of_free {s : Scope} : ∀ {e : Expr}, (∀ x ∈ e.free, s.plain x) → e.Within s
  | .literal _, _ => trivial
  | .var x, h => h x List.mem_cons_self
  | .binary _ a b, h => by
    obtain ⟨ha, hb⟩ := List.forall_mem_append.mp h
    exact ⟨within_of_free ha, within_of_free hb⟩
  | .unary g a, h => by
    by_cases say : g = UnaryOperator.say.glyph
    · exact .inl say
    · exact .inr (within_of_free (by simpa [free, say] using h))
  | .conditional a b c, h => by
    obtain ⟨hab, hc⟩ := List.forall_mem_append.mp h
    obtain ⟨ha, hb⟩ := List.forall_mem_append.mp hab
    exact ⟨within_of_free ha, within_of_free hb, within_of_free hc⟩
  | .lambda ps a, h => within_of_free (e := a) (Scope.plain_bind_of_filter h)
  | .apply f as, h => by
    obtain ⟨hf, has⟩ := List.forall_mem_append.mp h
    exact ⟨.inl (within_of_free hf), withinAll_of_free has⟩
  | .letIn bs a, h => by
    obtain ⟨hbs, ha⟩ := List.forall_mem_append.mp h
    exact ⟨withinBindings_of_free hbs, within_of_free (Scope.plain_bind_of_filter ha)⟩
  | .letRec bs a, h => by
    obtain ⟨hbs, ha⟩ := List.forall_mem_append.mp (Scope.plain_bind_of_filter h)
    exact ⟨withinBindings_of_free hbs, within_of_free ha⟩
  | .sequence a as, h => by
    obtain ⟨ha, has⟩ := List.forall_mem_append.mp h
    exact ⟨within_of_free ha, withinAll_of_free has⟩
  | .fix a, h => within_of_free (e := a) h

theorem withinAll_of_free {s : Scope} :
    ∀ {es : List Expr}, (∀ x ∈ freeInAll es, s.plain x) → WithinAll s es
  | [], _ => trivial
  | a :: as, h => by
    obtain ⟨ha, has⟩ := List.forall_mem_append.mp h
    exact ⟨within_of_free ha, withinAll_of_free has⟩

theorem withinBindings_of_free {s : Scope} :
    ∀ {bs : List (Text × Expr)}, (∀ x ∈ freeInBindings bs, s.plain x) → WithinBindings s bs
  | [], _ => trivial
  | (_, a) :: as, h => by
    obtain ⟨ha, has⟩ := List.forall_mem_append.mp h
    exact ⟨within_of_free ha, withinBindings_of_free has⟩

end

theorem Scope.allowed_of_mem_filter {s : Scope} {names free : List Text}
    (allowed : ∀ x ∈ free, (s.bind names).plain x ∨ (s.bind names).called x) :
    ∀ x ∈ free.filter (· ∉ names), s.plain x ∨ s.called x := by
  intro x member
  obtain ⟨inside, unbound⟩ := List.mem_filter.mp member
  have fresh : x ∉ names := by simpa using unbound
  rcases allowed x inside with (bound | plain) | ⟨_, called⟩
  · exact absurd bound fresh
  · exact .inl plain
  · exact .inr called

mutual

/-- A scope allows every free name of an expression within it. -/
theorem Within.free {s : Scope} : ∀ {e : Expr}, e.Within s → ∀ x ∈ e.free, s.plain x ∨ s.called x
  | .literal _, _ => by simp [Expr.free]
  | .var x, h => by
    intro y member
    rw [Expr.free, List.mem_singleton] at member
    exact .inl (member ▸ h)
  | .binary _ _ _, ⟨ha, hb⟩ => List.forall_mem_append.mpr ⟨ha.free, hb.free⟩
  | .unary g a, h => by
    by_cases say : g = UnaryOperator.say.glyph
    · simp [Expr.free, say]
    · simpa [Expr.free, say] using (h.resolve_left say).free
  | .conditional _ _ _, ⟨ha, hb, hc⟩ =>
    List.forall_mem_append.mpr ⟨List.forall_mem_append.mpr ⟨ha.free, hb.free⟩, hc.free⟩
  | .lambda _ a, h => Scope.allowed_of_mem_filter (Within.free (e := a) h)
  | .apply f as, ⟨hf, has⟩ => by
    refine List.forall_mem_append.mpr ⟨?_, WithinAll.free has⟩
    rcases hf with hf | ⟨x, arg, rfl, _, called⟩
    · exact hf.free
    · intro y member
      rw [Expr.free, List.mem_singleton] at member
      exact .inr (member ▸ called)
  | .letIn _ a, ⟨hbs, ha⟩ =>
    List.forall_mem_append.mpr ⟨WithinBindings.free hbs, Scope.allowed_of_mem_filter (Within.free (e := a) ha)⟩
  | .letRec _ a, ⟨hbs, ha⟩ =>
    Scope.allowed_of_mem_filter
      (List.forall_mem_append.mpr ⟨WithinBindings.free hbs, Within.free (e := a) ha⟩)
  | .sequence _ _, ⟨ha, has⟩ => List.forall_mem_append.mpr ⟨ha.free, WithinAll.free has⟩
  | .fix a, h => Within.free (e := a) h

theorem WithinAll.free {s : Scope} :
    ∀ {es : List Expr}, WithinAll s es → ∀ x ∈ freeInAll es, s.plain x ∨ s.called x
  | [], _ => by simp [freeInAll]
  | _ :: _, ⟨ha, has⟩ => List.forall_mem_append.mpr ⟨ha.free, WithinAll.free has⟩

theorem WithinBindings.free {s : Scope} :
    ∀ {bs : List (Text × Expr)}, WithinBindings s bs → ∀ x ∈ freeInBindings bs, s.plain x ∨ s.called x
  | [], _ => by simp [freeInBindings]
  | (_, _) :: _, ⟨ha, has⟩ => List.forall_mem_append.mpr ⟨ha.free, WithinBindings.free has⟩

end

/-- The combinator stays within the scope of the functional. -/
theorem Within.fixedPoint {s : Scope} {functional : Expr} (within : functional.Within s) :
    (fixedPoint functional).Within s := by
  have closed : combinator.Within s := within_of_free (by simp [free_combinator])
  exact ⟨.inl closed, within, trivial⟩

end CallByValue.Expr
