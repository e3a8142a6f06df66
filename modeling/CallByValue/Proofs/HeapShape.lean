import CallByValue.Proofs.RunInvariants

/-!
# The shape of the heap

Frames and closures refer to one another, and how they may do so depends on the
form that made the frame. Links lead to earlier frames. A closure in a frame that a
call or a binding made captures an earlier one; a closure in a recursive frame
captures that frame itself, and there is no other way round in the heap.
-/

namespace CallByValue

namespace Expr

mutual

/-- No recursive bindings stand anywhere in the expression. -/
def LetRecFree : Expr → Prop
  | .literal _ => True
  | .var _ => True
  | .binary _ a b => LetRecFree a ∧ LetRecFree b
  | .unary _ a => LetRecFree a
  | .conditional a b c => LetRecFree a ∧ LetRecFree b ∧ LetRecFree c
  | .lambda _ a => LetRecFree a
  | .apply f as => LetRecFree f ∧ AllLetRecFree as
  | .letIn bs a => BindingsLetRecFree bs ∧ LetRecFree a
  | .letRec _ _ => False
  | .sequence a as => LetRecFree a ∧ AllLetRecFree as
  | .fix a => LetRecFree a

def AllLetRecFree : List Expr → Prop
  | [] => True
  | a :: as => LetRecFree a ∧ AllLetRecFree as

def BindingsLetRecFree : List (Text × Expr) → Prop
  | [] => True
  | (_, a) :: as => LetRecFree a ∧ BindingsLetRecFree as

end

theorem allLetRecFree_iff {es : List Expr} : AllLetRecFree es ↔ ∀ e ∈ es, e.LetRecFree := by
  induction es with
  | nil => simp [AllLetRecFree]
  | cons e es ih => simp [AllLetRecFree, ih]

theorem bindingsLetRecFree_iff {bs : List (Text × Expr)} :
    BindingsLetRecFree bs ↔ ∀ e ∈ bs.map (·.2), e.LetRecFree := by
  induction bs with
  | nil => simp [BindingsLetRecFree]
  | cons b bs ih => simp [BindingsLetRecFree, ih]

theorem LetRecFree.part {e part : Expr} (free : e.LetRecFree) (member : part ∈ e.parts) : part.LetRecFree := by
  cases e with
  | binary g a b =>
    simp only [Expr.parts, List.mem_cons, List.not_mem_nil, or_false] at member
    rcases member with rfl | rfl
    · exact free.1
    · exact free.2
  | unary g a =>
    rw [Expr.parts] at member
    split at member
    · cases member
    · obtain rfl := List.mem_singleton.mp member
      exact free
  | conditional a b c =>
    simp only [Expr.parts, List.mem_cons, List.not_mem_nil, or_false] at member
    rcases member with rfl | rfl | rfl
    · exact free.1
    · exact free.2.1
    · exact free.2.2
  | apply f as =>
    rcases List.mem_cons.mp member with rfl | member
    · exact free.1
    · exact allLetRecFree_iff.mp free.2 part member
  | letIn bs a => exact bindingsLetRecFree_iff.mp free.1 part member
  | sequence a as =>
    rcases List.mem_cons.mp member with rfl | member
    · exact free.1
    · exact allLetRecFree_iff.mp free.2 part member
  | fix a =>
    obtain rfl := List.mem_singleton.mp member
    simpa [Expr.fixedPoint, LetRecFree, AllLetRecFree] using free
  | _ => cases member

end Expr

/-! ## Chains of frames -/

/-- Every frame of an environment has been made, and later than those behind it. -/
structure Store.Chain (store : Store) (env : Env) : Prop where
  made : store.Made env
  descending : env.Pairwise (· > ·)

namespace Store

variable {store : Store} {env : Env}

theorem Chain.grow {after : Store} (chain : store.Chain env) (growth : store.GrowsTo after) : after.Chain env :=
  ⟨chain.made.grow growth, chain.descending⟩

theorem chain_nil (store : Store) : store.Chain [] := ⟨made_nil store, .nil⟩

theorem Chain.push (chain : store.Chain env) (table : Table Value) : (store.push table).Chain (store.next env) :=
  ⟨made_push chain.made table, .cons chain.made chain.descending⟩

/-- A search along a chain is over after as many frames as have been made. -/
theorem Chain.length_le (chain : store.Chain env) : env.length ≤ store.frames.size := by
  obtain ⟨made, descending⟩ := chain
  unfold Made at made
  generalize store.frames.size = size at made
  induction descending generalizing size with
  | nil => exact Nat.zero_le size
  | @cons frame outer earlier _ ih => exact Nat.lt_of_le_of_lt (ih frame earlier) (made frame List.mem_cons_self)

end Store

/-! ## The frames of a run -/

namespace Opening

/-- The environment has no frame, or its innermost one is earlier than this one. -/
def Behind (o : Opening) (env : Env) : Prop := env = [] ∨ ∃ frame outer, env = frame :: outer ∧ frame < o.frame

theorem behind_of_chain {o : Opening} {env : Env} (chain : o.before.store.Chain env) : o.Behind env := by
  cases env with
  | nil => exact .inl rfl
  | cons frame outer => exact .inr ⟨frame, outer, rfl, chain.made frame List.mem_cons_self⟩

end Opening

namespace Visit

variable {channel : Channel} {root : Visit}

/-- The run makes a frame. -/
def Makes (channel : Channel) (root : Visit) (o : Opening) : Prop := ∃ v, root.LeadsTo channel v ∧ v.Opens channel o

/-- The run goes through a state: some visit begins or ends there. -/
inductive Passes (channel : Channel) (root : Visit) : Progress → Prop where
  | before {v} (reached : root.LeadsTo channel v) : Passes channel root v.before
  | after {v} (reached : root.LeadsTo channel v) : Passes channel root (v.run channel).2

/-- An environment in use: its frames have been made, each later than those behind it, and by the run, one over the
    other. -/
structure InUse (channel : Channel) (root : Visit) (now : Progress) (env : Env) : Prop where
  chain : now.store.Chain env
  origin : env = [] ∨ ∃ o, root.Makes channel o ∧ env = o.inner

/-- A recursive frame holds nothing but closures that capture it. -/
theorem Opens.recursion {v : Visit} {o : Opening} (opens : v.Opens channel o) (recursive : o.maker = .recursion)
    {name : Text} {value : Value} (found : o.table.find? name = some value) :
    ∃ c, value = .closure c ∧ c.env = o.inner := by
  cases opens with
  | letRec =>
    obtain ⟨_, _, entry⟩ := List.mem_map.mp (Table.mem_of_find?_ofPairs found)
    cases entry
    exact ⟨_, rfl, rfl⟩
  | _ => cases recursive

/-- Only recursive bindings make a recursive frame. -/
theorem Opens.maker_ne {v : Visit} {o : Opening} (opens : v.Opens channel o) (free : o.form.LetRecFree) :
    o.maker ≠ .recursion := by
  cases opens with
  | letRec => exact free.elim
  | _ => exact nofun

theorem Opens.letRecFree {v : Visit} {o : Opening} (opens : v.Opens channel o) (free : o.form.LetRecFree) :
    o.body.LetRecFree := by
  cases opens with
  | call => exact free
  | letIn => exact free.2
  | letRec => exact free.elim

theorem InUse.later {now after : Progress} {env : Env} (used : root.InUse channel now env) (lead : now.LeadsTo after) :
    root.InUse channel after env :=
  ⟨used.chain.grow lead.1, used.origin⟩

/-- The run made every frame, and closures in frames capture environments in use. Their code is free of recursive
    bindings if all code is to be. -/
structure Shaped (channel : Channel) (root : Visit) (plain : Prop) (now : Progress) : Prop where
  made : ∀ frame < now.store.frames.size,
    ∃ o, root.Makes channel o ∧ o.frame = frame ∧ now.store.bindings frame = o.table
  captured : ∀ frame name c, (now.store.bindings frame).find? name = some (.closure c) →
    root.InUse channel now c.env ∧ (plain → c.body.LetRecFree)

variable {plain : Prop} {now : Progress}

/-- What does not touch the frames keeps their shape. -/
theorem Shaped.frames_eq (shaped : root.Shaped channel plain now) {after : Progress}
    (same : after.store.frames = now.store.frames) (lead : now.LeadsTo after) : root.Shaped channel plain after := by
  have bindings : after.store.bindings = now.store.bindings := by
    funext frame
    rw [Store.bindings, same, Store.bindings]
  refine ⟨?_, fun frame name c found => ?_⟩
  · rw [same, bindings]
    exact shaped.made
  · rw [bindings] at found
    obtain ⟨used, free⟩ := shaped.captured frame name c found
    exact ⟨used.later lead, free⟩

theorem Shaped.push {o : Opening} (shaped : root.Shaped channel plain o.before) (makes : root.Makes channel o)
    (entries : ∀ name c, o.table.find? name = some (.closure c) →
      root.InUse channel (o.before.push o.table) c.env ∧ (plain → c.body.LetRecFree)) :
    root.Shaped channel plain (o.before.push o.table) := by
  refine ⟨fun frame inside => ?_, fun frame name c found => ?_⟩
  · change frame < (o.before.store.push o.table).frames.size at inside
    rw [Store.size_push] at inside
    change ∃ o', _ ∧ _ ∧ (o.before.store.push o.table).bindings frame = _
    by_cases newest : frame = o.before.store.frames.size
    · subst newest
      exact ⟨o, makes, rfl, Store.bindings_push_size _ _⟩
    · rw [Store.bindings_push_ne newest]
      exact shaped.made frame (by omega)
  · rcases Store.entry_of_push found with new | old
    · exact entries name c new
    · obtain ⟨used, free⟩ := shaped.captured frame name c old
      exact ⟨used.later (o.before.leadsTo_push _), free⟩

/-- Code runs in environments in use, and is free of recursive bindings if all code is to be. -/
def heapShape (channel : Channel) (root : Visit) (plain : Prop) : RunInvariant channel root where
  inv := root.Shaped channel plain
  fit now env e := root.InUse channel now env ∧ (plain → e.LetRecFree)
  fit_later lead fit := ⟨fit.1.later lead, fit.2⟩
  parts fit part member := ⟨fit.1, fun h => (fit.2 h).part member⟩
  tick shaped := shaped.frames_eq rfl (Progress.leadsTo_tick _)
  tell e shaped := shaped.frames_eq rfl (Progress.leadsTo_tell _ e)
  found shaped found := by
    obtain ⟨frame, _, entry⟩ := Store.exists_frame_of_lookup found
    exact shaped.captured frame _ _ entry
  opens {v o} reached opens shaped fit entries := by
    have makes : root.Makes channel o := ⟨v, reached, opens⟩
    have inner : root.InUse channel (o.before.push o.table) o.inner :=
      ⟨fit.1.chain.push o.table, .inr ⟨o, makes, rfl⟩⟩
    refine ⟨shaped.push makes fun name c found => ?_, inner, fun h => opens.letRecFree (fit.2 h)⟩
    by_cases recursive : o.maker = .recursion
    · obtain ⟨d, same, captures⟩ := opens.recursion recursive found
      cases same
      exact ⟨captures ▸ inner, fun h => absurd recursive (opens.maker_ne (fit.2 h))⟩
    · obtain ⟨used, free⟩ := entries recursive name _ found c rfl
      exact ⟨used.later (o.before.leadsTo_push _), free⟩

/-! ## The graph of frames and closures -/

end Visit

/-- What the heap consists of. -/
inductive Node where
  | frame (number : Nat)
  | closure (c : Closure)

namespace Node

/-- In a state of a run, a frame refers to the one it was made over and to the closures that it holds, and a closure to
    the frame that it captures. -/
inductive RefersTo (channel : Channel) (root : Visit) (now : Progress) : Node → Node → Prop where
  | link {o frame outer} (makes : root.Makes channel o) (made : o.frame < now.store.frames.size)
      (linked : o.outer = frame :: outer) : RefersTo channel root now (.frame o.frame) (.frame frame)
  | holds {frame name c} (bound : (now.store.bindings frame).find? name = some (.closure c)) :
      RefersTo channel root now (.frame frame) (.closure c)
  | captures {c frame outer} (captured : c.env = frame :: outer) :
      RefersTo channel root now (.closure c) (.frame frame)

/-- How late a node is. A closure is as late as the frame that it captures. -/
def age : Node → Nat
  | frame number => number + 1
  | closure c => (c.env.head?.map (· + 1)).getD 0

variable {channel : Channel} {root : Visit} {plain : Prop} {now : Progress}

/-- A frame is later than what it refers to, except that a recursive frame holds closures that capture it. -/
theorem age_lt_or_recursive (ready : (Visit.heapShape channel root plain).Ready root)
    (shaped : root.Shaped channel plain now) {frame : Nat} {b : Node}
    (refers : RefersTo channel root now (.frame frame) b) :
    b.age < age (.frame frame) ∨ ∃ o c, root.Makes channel o ∧ o.maker = .recursion ∧ o.frame = frame ∧
      b = .closure c ∧ c.env = o.inner := by
  cases refers with
  | @link o link outer makes made linked =>
    obtain ⟨v, reached, opens⟩ := makes
    have chain := (RunInvariant.reached_poised ready reached opens).fit.1.chain
    have earlier : link < o.frame := chain.made link (by simp [linked])
    exact .inl (Nat.succ_lt_succ earlier)
  | @holds _ name c bound =>
    obtain ⟨o, ⟨v, reached, opens⟩, rfl, table⟩ := shaped.made frame (Store.lt_size_of_find? bound)
    rw [table] at bound
    by_cases recursive : o.maker = .recursion
    · obtain ⟨d, same, captures⟩ := opens.recursion recursive bound
      cases same
      exact .inr ⟨o, c, ⟨v, reached, opens⟩, recursive, rfl, rfl, captures⟩
    · have entry := (RunInvariant.reached_poised ready reached opens).entries recursive name _ bound c rfl
      refine .inl ?_
      rcases Opening.behind_of_chain entry.1.chain with null | ⟨head, outer, captured, earlier⟩
      · simp [age, null]
      · simpa [age, captured] using earlier

theorem age_le_of_refersTo (ready : (Visit.heapShape channel root plain).Ready root)
    (shaped : root.Shaped channel plain now) {a b : Node} (refers : RefersTo channel root now a b) : b.age ≤ a.age := by
  cases a with
  | frame number =>
    rcases age_lt_or_recursive ready shaped refers with earlier | ⟨o, c, _, _, rfl, rfl, captures⟩
    · exact Nat.le_of_lt earlier
    · simp [age, captures, Opening.inner_eq]
  | closure c =>
    cases refers with
    | captures captured => simp [age, captured]

theorem age_le_of_path (ready : (Visit.heapShape channel root plain).Ready root)
    (shaped : root.Shaped channel plain now) {a b : Node}
    (path : Relation.ReflTransGen (RefersTo channel root now) a b) : b.age ≤ a.age := by
  induction path with
  | refl => exact Nat.le_refl _
  | tail _ refers ih => exact Nat.le_trans (age_le_of_refersTo ready shaped refers) ih

/-- A node that refers to itself, directly or through others, is a recursive frame or one of its own closures. -/
theorem recursive_of_cycle (ready : (Visit.heapShape channel root plain).Ready root)
    (shaped : root.Shaped channel plain now) {node : Node}
    (cycle : Relation.TransGen (RefersTo channel root now) node node) :
    ∃ o, root.Makes channel o ∧ o.maker = .recursion ∧ (node = .frame o.frame ∨
      ∃ name c, node = .closure c ∧ c.env = o.inner ∧
        (now.store.bindings o.frame).find? name = some (.closure c)) := by
  cases node with
  | frame number =>
    obtain ⟨next, refers, back⟩ := Relation.TransGen.head'_iff.mp cycle
    rcases age_lt_or_recursive ready shaped refers with earlier | ⟨o, c, makes, recursive, rfl, _⟩
    · exact absurd (age_le_of_path ready shaped back) (Nat.not_le_of_lt earlier)
    · exact ⟨o, makes, recursive, .inl rfl⟩
  | closure c =>
    obtain ⟨previous, back, refers⟩ := Relation.TransGen.tail'_iff.mp cycle
    cases refers with
    | @holds frame name _ bound =>
      rcases age_lt_or_recursive ready shaped (.holds bound) with
        earlier | ⟨o, d, makes, recursive, rfl, same, captures⟩
      · exact absurd (age_le_of_path ready shaped back) (Nat.not_le_of_lt earlier)
      · cases same
        exact ⟨o, makes, recursive, .inr ⟨name, c, rfl, captures, bound⟩⟩

end Node

/-- The shape of the heap in every state of every run from the environment without frames. A frame is made over an
    environment that is null or earlier; closures in the frames of calls and bindings capture such environments, and a
    recursive frame holds nothing but closures that capture it. Every frame was made so and is as it was made.
    Environments in use, captured ones too, lead through frames that have been made, each later than the next, so a
    search comes to an end. Nothing in the heap leads back to itself but recursive frames and their own closures, so
    nothing at all without recursive bindings. -/
theorem heap_shape (channel : Channel) (levels : Nat) (program : Expr) :
    let root : Visit := ⟨levels, program, [], .start .empty⟩
    (∀ o, root.Makes channel o →
      root.InUse channel o.before o.outer ∧ o.Behind o.outer ∧
      (o.maker ≠ .recursion → ∀ name c, o.table.find? name = some (.closure c) → o.Behind c.env) ∧
      (o.maker = .recursion → ∀ name v, o.table.find? name = some v → ∃ c, v = .closure c ∧ c.env = o.inner)) ∧
    (∀ v, root.LeadsTo channel v → root.InUse channel v.before v.env ∧
      ∀ c, (v.run channel).1 = .success (.closure c) → root.InUse channel (v.run channel).2 c.env) ∧
    ∀ now, root.Passes channel now →
      (∀ frame < now.store.frames.size,
        ∃ o, root.Makes channel o ∧ o.frame = frame ∧ now.store.bindings frame = o.table) ∧
      (∀ frame name c, (now.store.bindings frame).find? name = some (.closure c) → root.InUse channel now c.env) ∧
      (∀ env, root.InUse channel now env → env.Pairwise (· > ·) ∧ env.length ≤ now.store.frames.size) ∧
      (∀ node, Relation.TransGen (Node.RefersTo channel root now) node node →
        ∃ o, root.Makes channel o ∧ o.maker = .recursion ∧ (node = .frame o.frame ∨
          ∃ name c, node = .closure c ∧ c.env = o.inner ∧
            (now.store.bindings o.frame).find? name = some (.closure c))) ∧
      (program.LetRecFree → ∀ node, ¬ Relation.TransGen (Node.RefersTo channel root now) node node) := by
  intro root
  have ready : (Visit.heapShape channel root program.LetRecFree).Ready root := by
    refine ⟨⟨fun frame inside => ?_, fun frame name c found => ?_⟩, ⟨Store.chain_nil _, .inl rfl⟩, id⟩
    · exact absurd inside (Nat.not_lt_zero frame)
    · exact absurd (Store.lt_size_of_find? found) (Nat.not_lt_zero frame)
  have shaped : ∀ now, root.Passes channel now → root.Shaped channel program.LetRecFree now := by
    intro now passes
    cases passes with
    | before reached => exact (RunInvariant.reached ready reached).1.1
    | after reached => exact (RunInvariant.reached ready reached).2.1
  refine ⟨?_, ?_, ?_⟩
  · rintro o ⟨v, reached, opens⟩
    have poised := RunInvariant.reached_poised ready reached opens
    refine ⟨poised.fit.1, Opening.behind_of_chain poised.fit.1.chain, ?_, ?_⟩
    · intro other name c found
      exact Opening.behind_of_chain (poised.entries other name _ found c rfl).1.chain
    · exact fun recursive name v found => opens.recursion recursive found
  · intro v reached
    obtain ⟨begins, ends⟩ := RunInvariant.reached ready reached
    refine ⟨begins.2.1, fun c success => ?_⟩
    have good := ends.2
    rw [success] at good
    exact (good c rfl).1
  · intro now passes
    have here := shaped now passes
    refine ⟨here.made, fun frame name c found => (here.captured frame name c found).1, ?_, ?_, ?_⟩
    · exact fun env used => ⟨used.chain.descending, used.chain.length_le⟩
    · exact fun node cycle => Node.recursive_of_cycle ready here cycle
    · intro free node cycle
      obtain ⟨o, ⟨v, reached, opens⟩, recursive, _⟩ := Node.recursive_of_cycle ready here cycle
      exact opens.maker_ne ((RunInvariant.reached_poised ready reached opens).fit.2 free) recursive

/-- A function that is bound recursively and never called. -/
def boundToItself : Expr := .letRec [(lit "f", .lambda [lit "x"] (.var (lit "x")))] (.var (lit "f"))

/-- Its frame refers to itself, through the closure that it holds. -/
theorem heap_shape_bound_to_itself :
    let root : Visit := ⟨2, boundToItself, [], .start .empty⟩
    let after := (root.run .silence).2
    Relation.TransGen (Node.RefersTo .silence root after) (.frame 0) (.frame 0) ∧
      ∃ o, root.Makes .silence o ∧ o.maker = .recursion ∧ (Node.frame 0 = .frame o.frame ∨
        ∃ name c, Node.frame 0 = .closure c ∧ c.env = o.inner ∧
          (after.store.bindings o.frame).find? name = some (.closure c)) := by
  intro root after
  have bound : (after.store.bindings 0).find? (lit "f") = some (.closure ⟨[lit "x"], .var (lit "x"), [0]⟩) := rfl
  have cycle : Relation.TransGen (Node.RefersTo .silence root after) (.frame 0) (.frame 0) :=
    .tail (.single (.holds bound)) (.captures rfl)
  exact ⟨cycle, ((heap_shape .silence 2 boundToItself).2.2 after (.after .refl)).2.2.2.1 _ cycle⟩

end CallByValue
