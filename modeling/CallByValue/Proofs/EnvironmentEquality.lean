import CallByValue.Proofs.Idempotence
import CallByValue.Proofs.OrderOfNames
import CallByValue.Proofs.ValueEquality

/-!
# Equality of environments

Environments are equal if frame by frame they bind the same names, to entries that
are equal as data. That is an equivalence, and equal environments give every name
equal values, or none. It looks no further than the frames of both environments: what
lies behind the closures in them is not looked at, so that cycles do no harm, and
neither is the order in which names were bound.
-/

namespace CallByValue

/-! ## Entries -/

namespace Value

/-- Values that are equal as data are equal to the same values. -/
theorem agrees_congr {v w : Value} (same : v.agrees w = true) (u : Value) : v.agrees u = w.agrees u := by
  cases v with
  | atom a =>
    cases w with
    | atom b => cases u <;> first | exact Atom.same_congr same _ | rfl
    | _ => cases same
  | closure c =>
    cases w with
    | closure d => cases u <;> first | exact Closure.same_congr same _ | rfl
    | _ => cases same
  | quoted e =>
    cases w with
    | quoted f => cases u <;> first | exact Expr.same_congr same _ | rfl
    | _ => cases same

theorem agrees_symm {v w : Value} (same : v.agrees w = true) : w.agrees v = true := by
  rw [← agrees_congr same, agrees_refl]

theorem agrees_trans {u v w : Value} (first : u.agrees v = true) (second : v.agrees w = true) :
    u.agrees w = true := by
  rw [agrees_congr first, second]

end Value

/-! ## Frames -/

/-- Two entries of a name: none, or values that are equal as data. -/
def SameEntry : Option Value → Option Value → Prop := Option.Rel fun v w => v.agrees w = true

namespace SameEntry

variable {o p q o' p' : Option Value}

theorem refl (o : Option Value) : SameEntry o o := by
  cases o with
  | none => exact .none
  | some v => exact .some v.agrees_refl

theorem symm : SameEntry o p → SameEntry p o
  | .none => .none
  | .some same => .some (Value.agrees_symm same)

theorem trans (first : SameEntry o p) (second : SameEntry p q) : SameEntry o q := by
  cases first with
  | none => exact second
  | some same =>
    cases second with
    | some further => exact .some (Value.agrees_trans same further)

theorem eq_none_iff : SameEntry o p → (o = none ↔ p = none)
  | .none => Iff.rfl
  | .some _ => ⟨nofun, nofun⟩

theorem or (first : SameEntry o p) (second : SameEntry o' p') : SameEntry (o.or o') (p.or p') := by
  cases first with
  | none => exact second
  | some same => exact .some same

end SameEntry

namespace Table

theorem find?_of_mem {α : Type} {table : Table α} {name : Text} {entry : α}
    (member : (name, entry) ∈ table.entries) : table.find? name = some entry :=
  congrArg (Option.map Prod.snd) (find?_eq_some_of_mem table.distinct member)

/-- Tables agree if every name has the same entry in both. -/
theorem agrees_iff {a b : Table Value} :
    a.agrees Value.agrees b = true ↔ ∀ x, SameEntry (a.find? x) (b.find? x) := by
  refine ⟨fun agrees x => find?_rel_of_agrees agrees x, fun same => ?_⟩
  have bound : ∀ x, x ∈ a.names ↔ x ∈ b.names := fun x => by
    rw [← not_iff_not, ← find?_eq_none_iff, ← find?_eq_none_iff, (same x).eq_none_iff]
  -- As many names are bound as well, which the test looks at first.
  have perm : a.names.Perm b.names := (List.perm_ext_iff_of_nodup a.distinct b.distinct).mpr bound
  have length : a.entries.length = b.entries.length := by simpa [names] using perm.length_eq
  have entries : ∀ pair ∈ a.entries, ∃ w, b.find? pair.1 = some w ∧ pair.2.agrees w = true := by
    intro pair member
    have entry := same pair.1
    rw [find?_of_mem member] at entry
    generalize b.find? pair.1 = found at entry ⊢
    cases entry with
    | some agree => exact ⟨_, rfl, agree⟩
  simp only [Table.agrees, Bool.and_eq_true, decide_eq_true_eq, List.all_eq_true]
  refine ⟨length, fun pair member => ?_⟩
  obtain ⟨w, found, agree⟩ := entries pair member
  rw [found]
  exact agree

end Table

/-! ## Environments -/

namespace Store

variable {store other : Store} {a b c : Env}

/-- Two frames give every name the same entry. -/
def SameFrames (store : Store) (i j : Nat) : Prop :=
  ∀ x, SameEntry ((store.bindings i).find? x) ((store.bindings j).find? x)

/-- Environments are equal if their frames bind the same, place by place. -/
theorem agrees_iff : store.agrees a b = true ↔ List.Forall₂ store.SameFrames a b := by
  constructor
  · intro equal
    exact (forall₂_of_agrees equal).imp fun _ _ tables => Table.agrees_iff.mp tables
  · intro frames
    induction frames with
    | nil => rfl
    | cons same _ ih =>
      rw [agrees, Table.agrees_iff.mpr same, ih]
      rfl

theorem agrees_refl (store : Store) (a : Env) : store.agrees a a = true :=
  agrees_iff.mpr (List.forall₂_same.mpr fun _ _ _ => .refl _)

theorem agrees_symm (equal : store.agrees a b = true) : store.agrees b a = true := by
  rw [agrees_iff] at equal ⊢
  exact equal.flip.imp fun _ _ same x => (same x).symm

theorem agrees_trans (first : store.agrees a b = true) (second : store.agrees b c = true) :
    store.agrees a c = true := by
  rw [agrees_iff, List.forall₂_iff_get] at first second ⊢
  obtain ⟨length, left⟩ := first
  obtain ⟨length', right⟩ := second
  refine ⟨length.trans length', fun i inside inside' x => ?_⟩
  exact (left i inside (length ▸ inside) x).trans (right i (length ▸ inside) inside' x)

/-- Whether environments are equal depends on the entries in their own frames only. -/
theorem agrees_congr (same : ∀ frame ∈ a ++ b, ∀ x, (store.bindings frame).find? x = (other.bindings frame).find? x) :
    store.agrees a b = other.agrees a b := by
  have frames : ∀ {i j}, (i, j) ∈ a.zip b → (store.SameFrames i j ↔ other.SameFrames i j) := by
    intro i j member
    obtain ⟨left, right⟩ := List.of_mem_zip member
    refine forall_congr' fun x => ?_
    rw [same i (List.mem_append_left b left), same j (List.mem_append_right a right)]
  rw [Bool.eq_iff_iff, agrees_iff, agrees_iff, List.forall₂_iff_zip, List.forall₂_iff_zip]
  exact and_congr_right fun _ =>
    ⟨fun all _ _ member => (frames member).mp (all member), fun all _ _ member => (frames member).mpr (all member)⟩

/-- Equal environments give every name the same entry. -/
theorem lookup_of_agrees (equal : store.agrees a b = true) (x : Text) :
    SameEntry (store.lookup x a) (store.lookup x b) := by
  rw [agrees_iff] at equal
  induction equal with
  | nil => exact .none
  | cons same _ ih =>
    rw [lookup_cons, lookup_cons]
    exact (same x).or ih

/-- Frames over one environment that bind the same pairs in different orders make equal environments. -/
theorem agrees_of_perm {pairs others : List (Text × Value)} (distinct : (pairs.map (·.1)).Nodup)
    (perm : pairs.Perm others) (store : Store) (env : Env) :
    let first := store.extend env pairs
    let second := first.1.extend env others
    second.1.agrees first.2 second.2 = true := by
  intro first second
  refine agrees_iff.mpr (.cons (fun x => ?_) (agrees_iff.mp (agrees_refl _ env)))
  have older : store.frames.size ≠ first.1.frames.size := (size_lt_push store (.ofPairs pairs)).ne
  change SameEntry (((first.1.push (.ofPairs others)).bindings store.frames.size).find? x)
    (((first.1.push (.ofPairs others)).bindings first.1.frames.size).find? x)
  rw [bindings_push_size, bindings_push_ne older]
  change SameEntry (((store.push (.ofPairs pairs)).bindings store.frames.size).find? x) _
  rw [bindings_push_size, Table.find?_ofPairs_of_perm distinct perm]
  exact .refl _

end Store

/-- A name is looked up without success in both environments, or in both with success, to values that are equal as
    data. -/
def LooksUpAlike (x : Text) (a b : Env) (now : Progress) : Prop :=
  (Eval.lookup x a now = (.failure (.unbound x), now) ∧ Eval.lookup x b now = (.failure (.unbound x), now)) ∨
    ∃ v w, Eval.lookup x a now = (.success v, now) ∧ Eval.lookup x b now = (.success w, now) ∧ v.agrees w = true

theorem looksUpAlike_of_sameEntry {x : Text} {a b : Env} {now : Progress}
    (same : SameEntry (now.store.lookup x a) (now.store.lookup x b)) : LooksUpAlike x a b now := by
  unfold LooksUpAlike
  rw [Eval.lookup_apply, Eval.lookup_apply]
  generalize now.store.lookup x a = left at same ⊢
  generalize now.store.lookup x b = right at same ⊢
  cases same with
  | none => exact .inl ⟨rfl, rfl⟩
  | some agrees => exact .inr ⟨_, _, rfl, rfl, agrees⟩

/-- Equality of environments is an equivalence that lookups respect. It depends on the entries in the frames of both
    environments only, not on their order and not on what lies behind closures; and equal environments are equally
    deep and give every name values that are equal as data, or none. -/
theorem environments_equal (store : Store) :
    (∀ a, store.agrees a a = true) ∧
      (∀ a b, store.agrees a b = store.agrees b a) ∧
      (∀ a b c, store.agrees a b = true → store.agrees b c = true → store.agrees a c = true) ∧
      (∀ (other : Store) a b, (∀ frame ∈ a ++ b, ∀ x, (store.bindings frame).find? x = (other.bindings frame).find? x) →
        store.agrees a b = other.agrees a b) ∧
      (∀ (pairs others : List (Text × Value)) env, (pairs.map (·.1)).Nodup → pairs.Perm others →
        let first := store.extend env pairs
        let second := first.1.extend env others
        second.1.agrees first.2 second.2 = true) ∧
      ∀ a b said, store.agrees a b = true → a.length = b.length ∧ ∀ x, LooksUpAlike x a b ⟨store, said⟩ := by
  refine ⟨store.agrees_refl, fun a b => ?_, fun a b c => Store.agrees_trans, fun other a b => Store.agrees_congr,
    fun pairs others env distinct perm => Store.agrees_of_perm distinct perm store env,
    fun a b said equal => ⟨?_, fun x => looksUpAlike_of_sameEntry (Store.lookup_of_agrees equal x)⟩⟩
  · rw [Bool.eq_iff_iff]
    exact ⟨Store.agrees_symm, Store.agrees_symm⟩
  · exact (Store.agrees_iff.mp equal).length_eq

/-- What a frame binds that holds a function which gives itself, and so captures the frame. -/
def looping : List (Text × Value) := [(lit "f", .closure ⟨[], .var (lit "f"), [0]⟩), (lit "z", .truth false)]

/-- One in each of the ways in which it can be written down, under two names. -/
def ones (first second : Value) : List (Text × Value) := [(lit "x", first), (lit "y", second)]

/-- The frame of that function, and two that bind ones of different kinds, made in some order. -/
def loopingStore (order : List (Text × Value) → List (Text × Value)) : Store :=
  ⟨#[.ofPairs (order looping), .ofPairs (order (ones (.atom one) (.truth true))),
    .ofPairs (order (ones (.truth true) (.atom one)))], 1⟩

theorem environments_equal_looping :
    (loopingStore id).agrees [1, 0] [1, 0] = true ∧
      (loopingStore id).agrees [1, 0] [2, 0] = (loopingStore List.reverse).agrees [1, 0] [2, 0] ∧
      (let first := Store.empty.extend [] looping
        let second := first.1.extend [] looping.reverse
        second.1.agrees first.2 second.2 = true) ∧
      [1, 0].length = [2, 0].length ∧ LooksUpAlike (lit "f") [1, 0] [2, 0] ⟨loopingStore id, #[]⟩ := by
  obtain ⟨_, _, trans, entries, _, lookups⟩ := environments_equal (loopingStore id)
  obtain ⟨_, _, _, _, order, _⟩ := environments_equal .empty
  have there : (loopingStore id).agrees [1, 0] [2, 0] = true := by decide +kernel
  have back : (loopingStore id).agrees [2, 0] [1, 0] = true := by decide +kernel
  obtain ⟨depth, names⟩ := lookups [1, 0] [2, 0] #[] there
  refine ⟨trans _ _ _ there back, entries (loopingStore List.reverse) _ _ fun frame inside x => ?_,
    order looping looping.reverse [] (by decide) (List.reverse_perm looping).symm, depth, names (lit "f")⟩
  obtain rfl | rfl | rfl : frame = 1 ∨ frame = 0 ∨ frame = 2 := by simpa [or_comm] using inside
  all_goals exact Table.find?_ofPairs_of_perm (by decide) (List.reverse_perm _).symm x

end CallByValue
