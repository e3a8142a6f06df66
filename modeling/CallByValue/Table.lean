import CallByValue.Text

/-!
# Tables

A table gives each of its names one entry and keeps the names in the order in
which they first came. A name given again keeps its place and takes the new entry.
-/

namespace CallByValue

/-- The pairs with a name's entry replaced, or added at the end. -/
def setEntry {α : Type} (name : Text) (entry : α) : List (Text × α) → List (Text × α)
  | [] => [(name, entry)]
  | (other, old) :: rest =>
    if other = name then (name, entry) :: rest else (other, old) :: setEntry name entry rest

theorem mem_names_setEntry {α : Type} {name other : Text} {entry : α} {pairs : List (Text × α)}
    (present : other ∈ (setEntry name entry pairs).map (·.1)) :
    other = name ∨ other ∈ pairs.map (·.1) := by
  induction pairs with
  | nil => exact .inl (by simpa [setEntry] using present)
  | cons pair rest ih =>
    obtain ⟨first, old⟩ := pair
    by_cases same : first = name
    · rw [setEntry, if_pos same] at present
      rcases List.mem_cons.mp present with h | h
      · exact .inl h
      · exact .inr (List.mem_cons_of_mem _ h)
    · rw [setEntry, if_neg same] at present
      rcases List.mem_cons.mp present with h | h
      · exact .inr (h ▸ List.mem_cons_self)
      · exact (ih h).imp id (List.mem_cons_of_mem _)

theorem nodup_setEntry {α : Type} {name : Text} {entry : α} {pairs : List (Text × α)}
    (distinct : (pairs.map (·.1)).Nodup) : ((setEntry name entry pairs).map (·.1)).Nodup := by
  induction pairs with
  | nil => simp [setEntry]
  | cons pair rest ih =>
    obtain ⟨first, old⟩ := pair
    obtain ⟨absent, restDistinct⟩ := List.nodup_cons.mp distinct
    by_cases same : first = name
    · rw [setEntry, if_pos same]
      exact List.nodup_cons.mpr ⟨same ▸ absent, restDistinct⟩
    · rw [setEntry, if_neg same]
      exact List.nodup_cons.mpr
        ⟨fun present => (mem_names_setEntry present).elim same absent, ih restDistinct⟩

/-- Entries under distinct names, in order. -/
structure Table (α : Type) where
  entries : List (Text × α)
  distinct : (entries.map (·.1)).Nodup

namespace Table

variable {α : Type}

/-- The table without entries. -/
def empty : Table α := ⟨[], by simp⟩

/-- The table with a name's entry replaced, or added at the end. -/
def insert (table : Table α) (name : Text) (entry : α) : Table α :=
  ⟨setEntry name entry table.entries, nodup_setEntry table.distinct⟩

/-- The table of pairs; of two pairs with one name the later wins, at the place of the earlier. -/
def ofPairs (pairs : List (Text × α)) : Table α :=
  pairs.foldl (fun table pair => table.insert pair.1 pair.2) empty

/-- The entry of a name. -/
def find? (table : Table α) (name : Text) : Option α :=
  (table.entries.find? (·.1 = name)).map (·.2)

theorem find?_empty (name : Text) : (empty : Table α).find? name = none := rfl

/-- An insertion shows under its own name and nowhere else. -/
theorem find?_insert (table : Table α) (name wanted : Text) (entry : α) :
    (table.insert name entry).find? wanted = if wanted = name then some entry else table.find? wanted := by
  obtain ⟨entries, distinct⟩ := table
  simp only [insert, find?]
  clear distinct
  induction entries with
  | nil => by_cases same : wanted = name <;> simp [setEntry, same, eq_comm]
  | cons pair rest ih =>
    obtain ⟨first, old⟩ := pair
    by_cases here : first = name
    · subst here
      by_cases same : wanted = first
      · simp [setEntry, same]
      · simp [setEntry, same, Ne.symm same]
    · by_cases found : first = wanted
      · subst found
        simp [setEntry, here]
      · simpa [setEntry, here, found] using ih

private theorem find?_foldl (pairs : List (Text × α)) (table : Table α) (wanted : Text) :
    (pairs.foldl (fun table pair => table.insert pair.1 pair.2) table).find? wanted =
      ((pairs.reverse.find? (·.1 = wanted)).map (·.2)).or (table.find? wanted) := by
  induction pairs generalizing table with
  | nil => simp
  | cons pair rest ih =>
    rw [List.foldl_cons, ih, find?_insert, List.reverse_cons, List.find?_append]
    by_cases same : pair.1 = wanted
    · cases rest.reverse.find? (·.1 = wanted) <;> simp [same]
    · cases rest.reverse.find? (·.1 = wanted) <;> simp [same, Ne.symm same]

/-- Of the pairs with a name the last one shows. -/
theorem find?_ofPairs (pairs : List (Text × α)) (wanted : Text) :
    (ofPairs pairs).find? wanted = (pairs.reverse.find? (·.1 = wanted)).map (·.2) := by
  rw [ofPairs, find?_foldl, find?_empty, Option.or_none]

/-- The names in a table of pairs are those of the pairs. -/
theorem find?_ofPairs_eq_none {pairs : List (Text × α)} {wanted : Text} :
    (ofPairs pairs).find? wanted = none ↔ wanted ∉ pairs.map (·.1) := by
  rw [find?_ofPairs, Option.map_eq_none_iff, List.find?_eq_none, List.mem_map]
  constructor
  · rintro absent ⟨pair, member, named⟩
    exact absent pair (List.mem_reverse.mpr member) (by simpa using named)
  · intro absent pair member named
    exact absent ⟨pair, List.mem_reverse.mp member, by simpa using named⟩

theorem mem_of_find?_ofPairs {pairs : List (Text × α)} {name : Text} {entry : α}
    (found : (ofPairs pairs).find? name = some entry) : (name, entry) ∈ pairs := by
  rw [find?_ofPairs] at found
  obtain ⟨pair, first, rfl⟩ := Option.map_eq_some_iff.mp found
  have named : pair.1 = name := by simpa using List.find?_some first
  rw [← named]
  exact List.mem_reverse.mp (List.mem_of_find?_eq_some first)

theorem find?_single (name : Text) (entry : α) : (ofPairs [(name, entry)]).find? name = some entry := by
  simp [find?_ofPairs]

theorem find?_single_of_ne {name wanted : Text} (differs : wanted ≠ name) (entry : α) :
    (ofPairs [(name, entry)]).find? wanted = none :=
  find?_ofPairs_eq_none.mpr (by simpa using differs)

/-- The names in order. -/
def names (table : Table α) : List Text := table.entries.map (·.1)

/-- Do two tables have the same names and, under each, entries that agree? Their order is no matter. -/
def agrees (agree : α → α → Bool) (a b : Table α) : Bool :=
  a.entries.length = b.entries.length &&
    a.entries.all fun (name, entry) =>
      match b.find? name with
      | some other => agree entry other
      | none => false

end Table

end CallByValue
