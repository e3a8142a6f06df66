import CallByValue.Proofs.Occurrences
import CallByValue.Proofs.RoundTrip
import CallByValue.Proofs.Writing

/-!
# What can be written

A program that has been read holds no integer too long to be written, and neither
does anything inside it. So only exhaustion can keep it from being written, and where
it can be written, so can everything inside it.
-/

namespace CallByValue

/-! ## Short integers -/

theorem Json.atoms_subset_array {item : Json} {items : List Json} (member : item ∈ items) :
    item.atoms ⊆ (Json.array items).atoms :=
  fun _ present => mem_atomsOfItems.mpr ⟨item, member, present⟩

theorem Wire.atoms_subset_tagged {tag : Tag} {field : Json} {fields : List Json} (member : field ∈ fields) :
    field.atoms ⊆ (tagged tag fields).atoms :=
  Json.atoms_subset_array (List.mem_cons_of_mem _ member)

namespace Wire

theorem encodeAll_eq_map (es : List Expr) : encodeAll es = es.map encode := by
  induction es with
  | nil => rfl
  | cons e es ih => rw [encodeAll, ih, List.map_cons]

theorem encodeBindings_eq_map (bs : List (Text × Expr)) :
    encodeBindings bs = bs.map fun b => .array [.string b.1, encode b.2] := by
  induction bs with
  | nil => rfl
  | cons b bs ih => rw [encodeBindings, ih, List.map_cons]

theorem atoms_subset_encodeAll {e : Expr} {es : List Expr} (member : e ∈ es) :
    (encode e).atoms ⊆ (Json.array (encodeAll es)).atoms := by
  rw [encodeAll_eq_map]
  exact Json.atoms_subset_array (List.mem_map_of_mem member)

theorem atoms_subset_encodeBindings {e : Expr} {bs : List (Text × Expr)} (member : e ∈ bs.map (·.2)) :
    (encode e).atoms ⊆ (Json.array (encodeBindings bs)).atoms := by
  obtain ⟨b, listed, rfl⟩ := List.mem_map.mp member
  have inPair : (encode b.2).atoms ⊆ (Json.array [.string b.1, encode b.2]).atoms :=
    Json.atoms_subset_array (by simp)
  rw [encodeBindings_eq_map]
  exact List.Subset.trans inPair (Json.atoms_subset_array (List.mem_map.mpr ⟨b, listed, rfl⟩))

/-- The atoms of a part are among those of the whole. -/
theorem atoms_subset_of_mem_children {e part : Expr} (member : part ∈ e.children) :
    (encode part).atoms ⊆ (encode e).atoms := by
  cases e with
  | literal a => cases member
  | var x => cases member
  | binary g a b =>
    rcases List.mem_pair.mp member with rfl | rfl <;> exact atoms_subset_tagged (by simp)
  | conditional a b c =>
    simp only [Expr.children, List.mem_cons, List.not_mem_nil, or_false] at member
    rcases member with rfl | rfl | rfl <;> exact atoms_subset_tagged (by simp)
  | unary g a =>
    obtain rfl := List.mem_singleton.mp member
    exact atoms_subset_tagged (by simp)
  | lambda ps a =>
    obtain rfl := List.mem_singleton.mp member
    exact atoms_subset_tagged (by simp)
  | fix a =>
    obtain rfl := List.mem_singleton.mp member
    exact atoms_subset_tagged (by simp)
  | apply f as =>
    rcases List.mem_cons.mp member with rfl | argument
    · exact atoms_subset_tagged (by simp)
    · exact List.Subset.trans (atoms_subset_encodeAll argument) (atoms_subset_tagged (by simp))
  | sequence a as =>
    have item : part ∈ a :: as := member
    exact List.Subset.trans (atoms_subset_encodeAll item) (atoms_subset_tagged (by simp [encodeAll]))
  | letIn bs a =>
    rcases List.mem_append.mp member with bound | body
    · exact List.Subset.trans (atoms_subset_encodeBindings bound) (atoms_subset_tagged (by simp))
    · obtain rfl := List.mem_singleton.mp body
      exact atoms_subset_tagged (by simp)
  | letRec bs a =>
    rcases List.mem_append.mp member with bound | body
    · exact List.Subset.trans (atoms_subset_encodeBindings bound) (atoms_subset_tagged (by simp))
    · obtain rfl := List.mem_singleton.mp body
      exact atoms_subset_tagged (by simp)

end Wire

namespace Expr

/-- Every integer in the expression has few enough digits. -/
def Short (e : Expr) : Prop := (Wire.encode e).Short

theorem Short.child {e part : Expr} (short : e.Short) (member : part ∈ e.children) : part.Short :=
  fun n present => short n (Wire.atoms_subset_of_mem_children member present)

theorem Short.ownObstacle?_eq_none {e : Expr} (short : e.Short) : e.ownObstacle? = none := by
  unfold ownObstacle? Atom.obstacle?
  split
  · split
    · next n => exact if_pos (short n (by simp [Wire.encode, Wire.tagged, Json.atoms, Json.atomsOfItems]))
    · rfl
  · rfl

/-! ## What is inside -/

theorem depth_pos (e : Expr) : 0 < e.depth := by
  cases e <;> exact Nat.succ_pos _

theorem children_eq_steps (e : Expr) : e.children = e.steps.map (·.2) := by
  cases e <;> simp [children, steps]

theorem mem_children_of_mem_steps {e : Expr} {part : Nat × Expr} (member : part ∈ e.steps) : part.2 ∈ e.children :=
  e.children_eq_steps ▸ List.mem_map_of_mem member

/-- Only exhaustion keeps an expression without long integers from being written. -/
theorem Short.obstacleWithin?_cases {frames : Nat} {e : Expr} (short : e.Short) :
    e.obstacleWithin? frames = none ∨ e.obstacleWithin? frames = some .stackExhausted := by
  induction frames using Nat.strongRecOn generalizing e with
  | ind frames ih =>
    rw [obstacleWithin?_eq]
    split
    · exact .inr rfl
    · next room =>
      rw [short.ownObstacle?_eq_none, Option.none_or]
      cases stopped : e.steps.findSome? fun part => part.2.obstacleWithin? (frames - part.1) with
      | none => exact .inl rfl
      | some h =>
        obtain ⟨part, member, here⟩ := List.exists_of_findSome?_eq_some stopped
        have child := short.child (mem_children_of_mem_steps member)
        rcases ih _ (fewer_of_mem_steps (Nat.not_lt.mp room) member) child with free | exhausted
        · rw [free] at here
          cases here
        · rw [exhausted] at here
          exact .inr here.symm

/-- No form takes more frames than a clause does, so the frames of as many clauses as an expression is deep suffice. -/
theorem Short.obstacleWithin?_eq_none {frames : Nat} {e : Expr} (short : e.Short)
    (shallow : clauseStep * e.depth ≤ frames) : e.obstacleWithin? frames = none := by
  induction frames using Nat.strongRecOn generalizing e with
  | ind frames ih =>
    have room : e.ownFrames ≤ frames := by
      have positive := e.depth_pos
      obtain ⟨_, own⟩ := e.bounds_ownFrames
      unfold clauseStep at shallow own
      omega
    refine obstacleWithin?_eq_none_iff.mpr ⟨room, short.ownObstacle?_eq_none, fun part member => ?_⟩
    obtain ⟨_, step, less⟩ := bounds_of_mem_steps member
    refine ih _ (fewer_of_mem_steps room member) (short.child (mem_children_of_mem_steps member)) ?_
    unfold clauseStep at shallow step ⊢
    omega

theorem Short.obstacle?_cases {levels : Nat} {e : Expr} (short : e.Short) :
    e.obstacle? levels = none ∨ e.obstacle? levels = some .stackExhausted := short.obstacleWithin?_cases

/-- Levels that suffice for an expression suffice for what is directly inside. -/
theorem obstacle?_of_mem_children {levels : Nat} {e part : Expr} (written : e.obstacle? levels = none)
    (member : part ∈ e.children) : part.obstacle? levels = none := by
  rw [children_eq_steps] at member
  obtain ⟨⟨step, part⟩, listed, rfl⟩ := List.mem_map.mp member
  obtain ⟨_, _, inside⟩ := obstacleWithin?_eq_none_iff.mp written
  exact obstacleWithin?_mono (Nat.sub_le _ step) (inside _ listed)

theorem Short.standsIn {part e : Expr} (short : e.Short) (stands : part.StandsIn e) : part.Short := by
  induction stands with
  | refl => exact short
  | tail _ member ih => exact ih.child (mem_children_of_mem_inside member)

theorem obstacle?_of_standsIn {levels : Nat} {part e : Expr} (written : e.obstacle? levels = none)
    (stands : part.StandsIn e) : part.obstacle? levels = none := by
  induction stands with
  | refl => exact written
  | tail _ member ih => exact obstacle?_of_mem_children ih (mem_children_of_mem_inside member)

theorem mem_children_saying (operand : Expr) : operand ∈ operand.saying.children := List.mem_singleton_self operand

end Expr

/-! ## Texts of files -/

namespace Utf8

/-- What is announced so far leads past the surrogates or stays below them, whatever bytes follow. -/
structure Lead.Plain (lead : Lead) : Prop where
  owed : lead.owed ≤ 3
  last : lead.owed = 1 → lead.bits < 0x360 ∨ 0x380 ≤ lead.bits
  second : lead.owed = 2 → lead.bits ≠ 0xD ∨ 0x80 ≤ lead.low ∧ lead.high ≤ 0x9F
  third : lead.owed = 3 → 1 ≤ lead.bits ∨ 0x90 ≤ lead.low ∧ lead.high ≤ 0xBF

theorem plain_of_lead? {byte : UInt8} {lead : Lead} (announced : lead? byte = some lead) :
    lead.Plain ∧ (lead.owed = 0 → lead.bits < 0x80) := by
  unfold lead? at announced
  dsimp only at announced
  split_ifs at announced <;> obtain rfl := Option.some.inj announced
  all_goals refine ⟨⟨?_, ?_, ?_, ?_⟩, ?_⟩ <;> dsimp only <;> omega

theorem isSurrogate_ofNat {n : Nat} : (CodePoint.ofNat n).IsSurrogate ↔ 0xD800 ≤ n ∧ n ≤ 0xDFFF := by
  unfold CodePoint.ofNat CodePoint.IsSurrogate
  split
  · rfl
  · dsimp only
    omega

theorem Lead.Plain.next {lead : Lead} (plain : lead.Plain) {byte : Nat} (low : lead.low ≤ byte)
    (high : byte ≤ lead.high) :
    Lead.Plain ⟨lead.bits * 64 + byte % 64, lead.owed - 1, 0x80, 0xBF⟩ := by
  obtain ⟨owed, last, second, third⟩ := plain
  refine ⟨by dsimp only; omega, ?_, ?_, ?_⟩ <;> dsimp only <;> intro left
  · have before := second (by omega)
    omega
  · have before := third (by omega)
    omega
  · omega

/-- No decoder takes a surrogate. -/
theorem not_isSurrogate_of_decodeFrom {done : Text} {pending : Option Partial} {position : Nat} {bytes : List UInt8}
    {t : Text} (decoded : decodeFrom done pending position bytes = .ok t) (plain : ∀ p ∈ pending, p.lead.Plain)
    (sound : ∀ c ∈ done, ¬ c.IsSurrogate) : ∀ c ∈ t, ¬ c.IsSurrogate := by
  have fresh : ∀ p ∈ (none : Option Partial), p.lead.Plain := by simp
  induction bytes generalizing done pending position with
  | nil =>
    cases pending with
    | none =>
      cases decoded
      exact fun c member => sound c (List.mem_reverse.mp member)
    | some p => cases decoded
  | cons byte bytes ih =>
    cases pending with
    | none =>
      rw [decodeFrom] at decoded
      split at decoded
      · cases decoded
      · next lead announced =>
        obtain ⟨leads, single⟩ := plain_of_lead? announced
        split at decoded
        · next none =>
          refine ih decoded fresh (List.forall_mem_cons.mpr ⟨?_, sound⟩)
          have ascii := single none
          rw [isSurrogate_ofNat]
          omega
        · exact ih decoded (fun p member => Option.some.inj member ▸ leads) sound
    | some p =>
      have leads := plain p rfl
      rw [decodeFrom] at decoded
      dsimp only at decoded
      split_ifs at decoded with range last
      · refine ih decoded fresh (List.forall_mem_cons.mpr ⟨?_, sound⟩)
        have final := leads.last last
        rw [isSurrogate_ofNat]
        omega
      · exact ih decoded (fun p member => Option.some.inj member ▸ leads.next range.1 range.2) sound

end Utf8

theorem forall_mem_unifyLineEndsFrom {p : CodePoint → Prop} (feed : p (CodePoint.ofChar '\n')) {done : Text}
    {afterReturn : Bool} {t : Text} (before : ∀ c ∈ done, p c) (all : ∀ c ∈ t, p c) :
    ∀ c ∈ unifyLineEndsFrom done afterReturn t, p c := by
  induction t generalizing done afterReturn with
  | nil => exact fun c member => before c (List.mem_reverse.mp member)
  | cons d rest ih =>
    obtain ⟨first, others⟩ := List.forall_mem_cons.mp all
    rw [unifyLineEndsFrom]
    split
    · exact ih (List.forall_mem_cons.mpr ⟨feed, before⟩) others
    · split
      · exact ih before others
      · exact ih (List.forall_mem_cons.mpr ⟨first, before⟩) others

/-- A program that has been read from a file holds no long integers. -/
theorem Expr.short_of_ofBytes {frames : Nat} {bytes : List UInt8} {e : Expr}
    (loaded : Expr.ofBytes frames bytes = .ok e) : e.Short := by
  unfold Expr.ofBytes at loaded
  split at loaded
  · cases loaded
  · next t decoded =>
    obtain ⟨d, read, decodes, _⟩ := Expr.ofText_eq_ok loaded
    obtain ⟨encoded, _⟩ := Wire.encode_of_decode decodes
    have characters := Utf8.not_isSurrogate_of_decodeFrom decoded (by simp) (List.forall_mem_nil _)
    have plain : ∀ c ∈ unifyLineEnds t, ¬ c.IsSurrogate :=
      forall_mem_unifyLineEndsFrom (by decide) (List.forall_mem_nil _) characters
    obtain ⟨_, readable⟩ := Json.fits_of_read plain read
    rw [← encoded] at readable
    exact fun n present => readable _ present

/-- A file that holds a program's own text, in ASCII without returns, is read as the program. -/
theorem Expr.ofBytes_encode_json {frames : Nat} {e : Expr}
    (decoded : Utf8.decode (Utf8.encode e.json) = .ok e.json) (unified : unifyLineEnds e.json = e.json)
    (named : e.Named) (readable : ∀ a ∈ (Wire.encode e).atoms, a.Readable)
    (room : (Wire.encode e).nesting ≤ frames ∧ e.depth ≤ levels frames) :
    Expr.ofBytes frames (Utf8.encode e.json) = .ok e := by
  rw [Expr.ofBytes, decoded]
  change Expr.ofText frames (unifyLineEnds e.json) = _
  rw [unified, Expr.ofText_json named readable, if_pos room]

end CallByValue
