import CallByValue.Programs
import CallByValue.Proofs.JsonText
import CallByValue.Proofs.WireForms

/-!
# Programs survive being written and read

An invariant of the reader keeps whatever it has read fit to be written and read
again. A program that was read from a text without surrogates is therefore read
from its own text as the very same program.
-/

namespace CallByValue

namespace Json

theorem mem_atomsOfItems {a : Atom} {items : List Json} :
    a ∈ atomsOfItems items ↔ ∃ item ∈ items, a ∈ item.atoms := by
  induction items with
  | nil => simp [atomsOfItems]
  | cons item items ih => simp [atomsOfItems, ih]

theorem mem_atomsOfMembers {a : Atom} {members : List (Text × Json)} :
    a ∈ atomsOfMembers members ↔ ∃ member ∈ members, a ∈ member.2.atoms := by
  induction members with
  | nil => simp [atomsOfMembers]
  | cons member members ih => simp [atomsOfMembers, ih]

theorem nestingOfItems_le_iff {items : List Json} {depth : Nat} :
    nestingOfItems items ≤ depth ↔ ∀ item ∈ items, item.nesting ≤ depth := by
  induction items with
  | nil => simp [nestingOfItems]
  | cons item items ih => simp [nestingOfItems, ih]

theorem nestingOfMembers_le_iff {members : List (Text × Json)} {depth : Nat} :
    nestingOfMembers members ≤ depth ↔ ∀ member ∈ members, member.2.nesting ≤ depth := by
  induction members with
  | nil => simp [nestingOfMembers]
  | cons member members ih => simp [nestingOfMembers, ih]

/-- The datum may stand inside so many brackets, and its atoms can be read back. -/
structure Fits (limit level : Nat) (d : Json) : Prop where
  shallow : d.nesting + level ≤ limit
  readable : ∀ a ∈ d.atoms, a.Readable

theorem fits_array {limit level : Nat} {items : List Json} (room : level < limit)
    (fits : ∀ item ∈ items, item.Fits limit (level + 1)) : (Json.array items).Fits limit level where
  shallow := by
    have bound : nestingOfItems items ≤ limit - (level + 1) := nestingOfItems_le_iff.mpr fun item member => by
      have shallow := (fits item member).shallow
      omega
    rw [nesting]
    omega
  readable := by
    intro a member
    obtain ⟨item, listed, present⟩ := mem_atomsOfItems.mp member
    exact (fits item listed).readable a present

theorem fits_object {limit level : Nat} {members : List (Text × Json)} (room : level < limit)
    (fits : ∀ member ∈ members, member.2.Fits limit (level + 1)) : (Json.object members).Fits limit level where
  shallow := by
    have bound : nestingOfMembers members ≤ limit - (level + 1) := nestingOfMembers_le_iff.mpr fun member listed => by
      have shallow := (fits member listed).shallow
      omega
    rw [nesting]
    omega
  readable := by
    intro a member
    obtain ⟨pair, listed, present⟩ := mem_atomsOfMembers.mp member
    exact (fits pair listed).readable a present

end Json

theorem mem_setEntry {α : Type} {name : Text} {entry : α} {pairs : List (Text × α)} {pair : Text × α}
    (member : pair ∈ setEntry name entry pairs) : pair.2 = entry ∨ pair ∈ pairs := by
  induction pairs with
  | nil =>
    rw [setEntry, List.mem_singleton] at member
    exact .inl (member ▸ rfl)
  | cons first rest ih =>
    rw [setEntry] at member
    split at member
    · rcases List.mem_cons.mp member with rfl | later
      · exact .inl rfl
      · exact .inr (List.mem_cons_of_mem _ later)
    · rcases List.mem_cons.mp member with rfl | later
      · exact .inr List.mem_cons_self
      · exact (ih later).imp id (List.mem_cons_of_mem _)

namespace JsonReader
open JsonToken (Located Sound)

/-! ## What is read can be written -/

/-- What is held by an array or object that is open at a level. -/
def Open.Fits (limit level : Nat) : Open → Prop
  | .array items => ∀ item ∈ items, item.Fits limit level
  | .member before _ => ∀ member ∈ before.entries, member.2.Fits limit level

/-- What is held by everything that is open. -/
def StackFits (limit : Nat) : List Open → Prop
  | [] => True
  | o :: stack => stack.length < limit ∧ o.Fits limit (stack.length + 1) ∧ StackFits limit stack

/-- What is held by what is expected. -/
def Awaiting.Fits (limit level : Nat) : Awaiting → Prop
  | .value _ => True
  | .name members _ => level < limit ∧ ∀ member ∈ members.entries, member.2.Fits limit (level + 1)
  | .colon members _ => level < limit ∧ ∀ member ∈ members.entries, member.2.Fits limit (level + 1)
  | .separator latest => latest.Fits limit level

/-- Everything that has been read may stand where it stands. -/
structure State.Fits (limit : Nat) (state : State) : Prop where
  stack : StackFits limit state.stack
  awaiting : state.awaiting.Fits limit state.stack.length

theorem fits_start (limit : Nat) : start.Fits limit := ⟨trivial, trivial⟩

theorem StackFits.length_le {limit : Nat} {stack : List Open} (fits : StackFits limit stack) :
    stack.length ≤ limit := by
  cases stack with
  | nil => exact Nat.zero_le limit
  | cons o stack => exact fits.1

theorem fits_insert {limit level : Nat} {before : Table Json} {name : Text} {latest : Json}
    (fits : ∀ member ∈ before.entries, member.2.Fits limit level) (last : latest.Fits limit level) :
    ∀ member ∈ (before.insert name latest).entries, member.2.Fits limit level := by
  intro member listed
  rcases mem_setEntry listed with same | old
  · rwa [same]
  · exact fits member old

theorem State.deeper_eq_ok {limit : Nat} {state opened after : State}
    (deeper : state.deeper limit opened = .ok after) : state.stack.length < limit ∧ after = opened := by
  unfold State.deeper at deeper
  split at deeper
  · cases deeper
  · next room =>
    cases deeper
    exact ⟨not_le.mp room, rfl⟩

/-- One token keeps the invariant. -/
theorem fits_next {limit position : Nat} {token : JsonToken} {state after : State} (fits : state.Fits limit)
    (sound : Sound token) (next : state.next limit position token = .ok after) : after.Fits limit := by
  obtain ⟨opened, expected⟩ := fits
  have bounded := opened.length_le
  revert next
  fun_cases State.next with
  | case1 closes t awaits =>
    rintro ⟨⟩
    refine ⟨opened, ?_, List.forall_mem_singleton.mpr sound⟩
    rwa [Json.string, Json.nesting, Nat.zero_add]
  | case2 closes datum awaits =>
    rintro ⟨⟩
    refine ⟨opened, ?_, sound.2⟩
    rwa [sound.1, Nat.zero_add]
  | case3 =>
    intro deeper
    obtain ⟨room, rfl⟩ := State.deeper_eq_ok deeper
    exact ⟨⟨room, nofun, opened⟩, trivial⟩
  | case4 =>
    intro deeper
    obtain ⟨room, rfl⟩ := State.deeper_eq_ok deeper
    exact ⟨opened, room, nofun⟩
  | case5 items stack innermost awaits =>
    rintro ⟨⟩
    rw [innermost] at opened
    obtain ⟨room, inside, outside⟩ := opened
    exact ⟨outside, Json.fits_array room fun item member => inside item (List.mem_reverse.mp member)⟩
  | case6 members closes t awaits =>
    rintro ⟨⟩
    rw [awaits] at expected
    exact ⟨opened, expected⟩
  | case7 members awaits =>
    rintro ⟨⟩
    rw [awaits] at expected
    exact ⟨opened, Json.fits_object expected.1 expected.2⟩
  | case8 members name awaits =>
    rintro ⟨⟩
    rw [awaits] at expected
    exact ⟨⟨expected.1, expected.2, opened⟩, trivial⟩
  | case9 latest items stack innermost awaits =>
    rintro ⟨⟩
    rw [innermost] at opened expected
    rw [awaits] at expected
    obtain ⟨room, inside, outside⟩ := opened
    exact ⟨⟨room, List.forall_mem_cons.mpr ⟨expected, inside⟩, outside⟩, trivial⟩
  | case10 latest items stack innermost awaits =>
    rintro ⟨⟩
    rw [innermost] at opened expected
    rw [awaits] at expected
    obtain ⟨room, inside, outside⟩ := opened
    have all : ∀ item ∈ latest :: items, item.Fits limit (stack.length + 1) :=
      List.forall_mem_cons.mpr ⟨expected, inside⟩
    exact ⟨outside, Json.fits_array room fun item member => all item (List.mem_reverse.mp member)⟩
  | case11 latest before name stack innermost awaits =>
    rintro ⟨⟩
    rw [innermost] at opened expected
    rw [awaits] at expected
    obtain ⟨room, inside, outside⟩ := opened
    exact ⟨outside, room, fits_insert inside expected⟩
  | case12 latest before name stack innermost awaits =>
    rintro ⟨⟩
    rw [innermost] at opened expected
    rw [awaits] at expected
    obtain ⟨room, inside, outside⟩ := opened
    exact ⟨outside, Json.fits_object room (fits_insert inside expected)⟩
  | case13 => exact nofun

theorem fits_run {limit : Nat} {located : List Located} {state after : State} (fits : state.Fits limit)
    (sound : ∀ l ∈ located, Sound l.token) (run : state.run limit located = .ok after) : after.Fits limit := by
  induction located generalizing state with
  | nil =>
    cases run
    exact fits
  | cons l located ih =>
    obtain ⟨first, others⟩ := List.forall_mem_cons.mp sound
    rw [State.run] at run
    split at run
    · next between step => exact ih (fits_next fits first step) others run
    · cases run

end JsonReader

theorem JsonReader.eq_separator_of_conclude {state : JsonReader.State} {ending : JsonEnd} {position : Nat} {d : Json}
    (concluded : state.conclude ending position = .ok d) : state = ⟨[], .separator d⟩ := by
  obtain ⟨stack, awaiting⟩ := state
  unfold JsonReader.State.conclude at concluded
  dsimp only at concluded
  split at concluded
  · cases concluded
    rfl
  all_goals cases concluded

/-- What is read from a text without surrogates nests no deeper than it may, and its atoms can be
    read back. -/
theorem Json.fits_of_read {limit : Nat} {t : Text} {d : Json} (plain : ∀ c ∈ t, ¬ c.IsSurrogate)
    (read : Json.read limit t = .ok d) : d.Fits limit 0 := by
  unfold Json.read at read
  split at read
  · cases read
  dsimp only at read
  split at read
  · next state run =>
    have fits := JsonReader.fits_run (JsonReader.fits_start limit)
      (JsonToken.sound_scan plain (List.forall_mem_nil _)) run
    rw [JsonReader.eq_separator_of_conclude read] at fits
    exact fits.awaiting
  · cases read

/-! ## Encodings -/

namespace Json

/-- The datum can be read back if its atoms can. -/
def ByAtoms (d : Json) : Prop := (∀ a ∈ d.atoms, a.Readable) → d.Listed

theorem byAtoms_atom (a : Atom) : (Json.atom a).ByAtoms := fun readable => readable a List.mem_cons_self

theorem byAtoms_string (t : Text) : (Json.string t).ByAtoms := byAtoms_atom (.text t)

theorem byAtoms_array {items : List Json} (all : ∀ item ∈ items, item.ByAtoms) : (Json.array items).ByAtoms := by
  intro readable
  induction items with
  | nil => trivial
  | cons item items ih =>
    obtain ⟨first, others⟩ := List.forall_mem_cons.mp all
    obtain ⟨here, there⟩ := List.forall_mem_append.mp readable
    exact ⟨first here, ih others there⟩

end Json

namespace Wire
open Json (byAtoms_atom byAtoms_string byAtoms_array)

theorem byAtoms_tagged {tag : Tag} {fields : List Json} (all : ∀ field ∈ fields, field.ByAtoms) :
    (tagged tag fields).ByAtoms :=
  byAtoms_array (List.forall_mem_cons.mpr ⟨byAtoms_string tag.word, all⟩)

theorem byAtoms_names (xs : List Text) : (Json.array (xs.map .string)).ByAtoms := by
  apply byAtoms_array
  intro item member
  obtain ⟨x, -, rfl⟩ := List.mem_map.mp member
  exact byAtoms_string x

mutual

/-- Encodings hold no objects. -/
theorem byAtoms_encode : ∀ e : Expr, (encode e).ByAtoms
  | .literal a => byAtoms_tagged (by simpa using byAtoms_atom a)
  | .var x => byAtoms_tagged (by simpa using byAtoms_string x)
  | .binary g a b => byAtoms_tagged (by
    simpa using ⟨byAtoms_string g, byAtoms_encode a, byAtoms_encode b⟩)
  | .unary g a => byAtoms_tagged (by simpa using ⟨byAtoms_string g, byAtoms_encode a⟩)
  | .conditional a b c => byAtoms_tagged (by simpa using ⟨byAtoms_encode a, byAtoms_encode b, byAtoms_encode c⟩)
  | .lambda ps a => byAtoms_tagged (by simpa using ⟨byAtoms_names ps, byAtoms_encode a⟩)
  | .apply f as => byAtoms_tagged (by simpa using ⟨byAtoms_encode f, byAtoms_array (byAtoms_encodeAll as)⟩)
  | .letIn bs a => byAtoms_tagged (by simpa using ⟨byAtoms_array (byAtoms_encodeBindings bs), byAtoms_encode a⟩)
  | .letRec bs a => byAtoms_tagged (by simpa using ⟨byAtoms_array (byAtoms_encodeBindings bs), byAtoms_encode a⟩)
  | .sequence a as => byAtoms_tagged (by
    simpa using byAtoms_array (List.forall_mem_cons.mpr ⟨byAtoms_encode a, byAtoms_encodeAll as⟩))
  | .fix a => byAtoms_tagged (by simpa using byAtoms_encode a)

theorem byAtoms_encodeAll : ∀ es : List Expr, ∀ d ∈ encodeAll es, d.ByAtoms
  | [] => List.forall_mem_nil _
  | e :: es => List.forall_mem_cons.mpr ⟨byAtoms_encode e, byAtoms_encodeAll es⟩

theorem byAtoms_encodeBindings : ∀ bs : List (Text × Expr), ∀ d ∈ encodeBindings bs, d.ByAtoms
  | [] => by
    rw [encodeBindings]
    exact List.forall_mem_nil _
  | (x, e) :: bs => by
    have clause : (Json.array [.string x, encode e]).ByAtoms :=
      byAtoms_array (by simpa using ⟨byAtoms_string x, byAtoms_encode e⟩)
    rw [encodeBindings]
    exact List.forall_mem_cons.mpr ⟨clause, byAtoms_encodeBindings bs⟩

end

end Wire

/-! ## The round trip -/

theorem Expr.ofText_eq_ok {frames : Nat} {t : Text} {e : Expr} (loaded : Expr.ofText frames t = .ok e) :
    ∃ d, Json.read frames t = .ok d ∧ Wire.decode d = .ok e ∧ e.depth ≤ levels frames := by
  unfold Expr.ofText at loaded
  split at loaded
  · cases loaded
  · cases loaded
  · cases loaded
  · next d read =>
    split at loaded
    · cases loaded
    · next decoded =>
      split at loaded
      · cases loaded
      · next shallow =>
        cases loaded
        exact ⟨d, read, decoded, not_lt.mp shallow⟩

/-- A program whose names and literals can be read back is read from its own text, unless it nests
    too deep. -/
theorem Expr.ofText_json {e : Expr} (named : e.Named) (readable : ∀ a ∈ (Wire.encode e).atoms, a.Readable)
    (limit : Nat) :
    Expr.ofText limit e.json =
      if (Wire.encode e).nesting ≤ limit ∧ e.depth ≤ levels limit then .ok e else .error .tooDeep := by
  rw [Expr.ofText, Expr.json, Json.read_text (Wire.byAtoms_encode e readable)]
  by_cases fits : (Wire.encode e).nesting ≤ limit
  · simp only [fits, if_true, Wire.decode_encode named, true_and]
    by_cases deep : levels limit < e.depth
    · rw [if_pos deep, if_neg (not_le.mpr deep)]
    · rw [if_neg deep, if_pos (not_lt.mp deep)]
  · simp only [fits, if_false, false_and]

/-- A program read from a text without surrogates is written in ASCII. Wherever that text is read,
    it is read as the very same program, unless the program nests too deep; where it was read it
    does not. So writing it once more changes nothing. -/
theorem json_survives_reading {frames : Nat} {t : Text} {e : Expr} (plain : ∀ c ∈ t, ¬ c.IsSurrogate)
    (loaded : Expr.ofText frames t = .ok e) :
    (∀ c ∈ e.json, c.IsAscii) ∧
      (∀ limit, Expr.ofText limit e.json =
        if (Wire.encode e).nesting ≤ limit ∧ e.depth ≤ levels limit then .ok e else .error .tooDeep) ∧
      Expr.ofText frames e.json = .ok e ∧
      ∀ limit again, Expr.ofText limit e.json = .ok again → again = e ∧ again.json = e.json := by
  obtain ⟨d, read, decoded, shallow⟩ := Expr.ofText_eq_ok loaded
  obtain ⟨encoded, named⟩ := Wire.encode_of_decode decoded
  obtain ⟨nested, readable⟩ := Json.fits_of_read plain read
  rw [← encoded] at nested readable
  have back := Expr.ofText_json named readable
  refine ⟨Json.isAscii_text _, back, ?_, ?_⟩
  · rw [back, if_pos ⟨nested, shallow⟩]
  · intro limit again reloaded
    rw [back] at reloaded
    split at reloaded
    · cases reloaded
      exact ⟨rfl, rfl⟩
    · cases reloaded

/-- A negative zero, and half of a surrogate pair before a quotation mark. -/
theorem json_survives_reading_half_pair :
    let t := lit "[\"binop\", \"+\", [\"lit\", -0.0], [\"lit\", \"\\ud83d\\\"\"]]"
    let e := Expr.binary (lit "+") (.literal (.number (.float (.finite true .zero))))
      (.literal (.text [CodePoint.ofNat 0xD83D, CodePoint.ofChar '"']))
    (∀ c ∈ t, ¬ c.IsSurrogate) ∧ Expr.ofText 1000 t = .ok e ∧ Expr.ofText 1000 e.json = .ok e := by
  intro t e
  have plain : ∀ c ∈ t, ¬ c.IsSurrogate := by decide
  have spelled : e.json = t := by decide
  have readable : ∀ a ∈ (Wire.encode e).atoms, a.Readable := by decide
  have loaded : Expr.ofText 1000 t = .ok e := by
    rw [← spelled, Expr.ofText_json (by decide) readable]
    exact if_pos (by decide)
  exact ⟨plain, loaded, (json_survives_reading plain loaded).2.2.1⟩

end CallByValue
