import CallByValue.Json
import CallByValue.Proofs.JsonStrings
import CallByValue.Proofs.Numerals

/-!
# What JSON data are made of

The atoms of a datum decide whether it can be written and whether it can be read
back. Whatever they are, its text is ASCII.
-/

namespace CallByValue

/-- Can the text of an atom be read back as the atom? Long integers cannot be read at all, two
    halves of a pair become one code point, and the mark of a NaN is not written. -/
def Atom.Readable : Atom → Prop
  | .boolean _ => True
  | .number (.integer n) => n.natAbs < Nat.pow 10 digitLimit
  | .number (.float (.nan mark)) => mark = 0
  | .number (.float _) => True
  | .text t => Text.Joined t

instance : (a : Atom) → Decidable a.Readable
  | .boolean _ => inferInstanceAs (Decidable True)
  | .number (.integer n) => inferInstanceAs (Decidable (n.natAbs < Nat.pow 10 digitLimit))
  | .number (.float (.nan mark)) => inferInstanceAs (Decidable (mark = 0))
  | .number (.float (.finite _ _)) => inferInstanceAs (Decidable True)
  | .number (.float (.infinite _)) => inferInstanceAs (Decidable True)
  | .text t => inferInstanceAs (Decidable (Text.Joined t))

namespace Json

mutual

/-- The atoms of a datum, from left to right. -/
def atoms : Json → List Atom
  | .null => []
  | .atom a => [a]
  | .array items => atomsOfItems items
  | .object members => atomsOfMembers members

def atomsOfItems : List Json → List Atom
  | [] => []
  | item :: items => atoms item ++ atomsOfItems items

def atomsOfMembers : List (Text × Json) → List Atom
  | [] => []
  | (_, value) :: members => atoms value ++ atomsOfMembers members

end

/-- The text of a datum, if the host writes all its integers. -/
def written (d : Json) : Except Halt Text :=
  match d.atoms.findSome? Atom.obstacle? with
  | some halt => .error halt
  | none => .ok d.text

/-- Every integer in the datum has few enough digits. -/
def Short (d : Json) : Prop := ∀ n, .number (.integer n) ∈ d.atoms → n.natAbs < Nat.pow 10 digitLimit

theorem Short.written_eq {d : Json} (short : d.Short) : d.written = .ok d.text := by
  have free : d.atoms.findSome? Atom.obstacle? = none := by
    rw [List.findSome?_eq_none_iff]
    intro a member
    unfold Atom.obstacle?
    split
    · next n => exact if_pos (short n member)
    · rfl
  rw [written, free]

end Json

/-! ## Nothing but ASCII -/

theorem CodePoint.IsDigit.isAscii {c : CodePoint} (digit : c.IsDigit) : c.IsAscii := by
  unfold CodePoint.IsAscii
  exact lt_of_le_of_lt digit.2 (by decide)

theorem JsonToken.Numeral.Standard.isAscii {n : JsonToken.Numeral} (standard : n.Standard) :
    ∀ c ∈ n.text, c.IsAscii := by
  have minus : (CodePoint.ofChar '-').IsAscii := by decide
  have plus : (CodePoint.ofChar '+').IsAscii := by decide
  have point : (CodePoint.ofChar '.').IsAscii := by decide
  have power : (CodePoint.ofChar 'e').IsAscii := by decide
  have fraction : ∀ c ∈ n.fractionText, c.IsAscii := by
    unfold JsonToken.Numeral.fractionText
    split
    · nofun
    · exact List.forall_mem_cons.mpr ⟨point, fun c member => (standard.fraction c member).isAscii⟩
  have exponent : ∀ c ∈ n.exponentText, c.IsAscii := by
    unfold JsonToken.Numeral.exponentText
    split
    · nofun
    · refine List.forall_mem_cons.mpr ⟨power, List.forall_mem_cons.mpr ⟨?_, fun c member => ?_⟩⟩
      · split <;> assumption
      · exact (standard.exponent c member).isAscii
  have whole : ∀ c ∈ n.whole, c.IsAscii := fun c member => (standard.whole c member).isAscii
  refine List.forall_mem_append.mpr ⟨?_, List.forall_mem_append.mpr
    ⟨whole, List.forall_mem_append.mpr ⟨fraction, exponent⟩⟩⟩
  split
  · exact List.forall_mem_singleton.mpr minus
  · nofun

namespace Json

theorem isAscii_atomText (a : Atom) : ∀ c ∈ atomText a, c.IsAscii := by
  match a with
  | .boolean true | .boolean false => decide
  | .number (.integer n) =>
    have ascii := (JsonToken.Numeral.standard_ofInteger n).isAscii
    rwa [JsonToken.Numeral.text_ofInteger] at ascii
  | .number (.float (.finite negative m)) =>
    obtain ⟨n, standard, -, text, -⟩ := JsonToken.Numeral.exists_float words negative m
    have ascii := standard.isAscii
    rwa [text] at ascii
  | .number (.float (.infinite true)) | .number (.float (.infinite false)) => decide
  | .number (.float (.nan _)) =>
    have word : ∀ c ∈ lit "NaN", c.IsAscii := by decide
    exact word
  | .text t => exact JsonToken.isAscii_quote t

theorem listed_cons_cons (part next : Text) (rest : List Text) :
    Text.listed (part :: next :: rest) = part ++ (lit ", " ++ Text.listed (next :: rest)) := by
  simp [Text.listed, List.intercalate]

theorem isAscii_listed {parts : List Text} (ascii : ∀ part ∈ parts, ∀ c ∈ part, c.IsAscii) :
    ∀ c ∈ Text.listed parts, c.IsAscii := by
  have separator : ∀ c ∈ lit ", ", c.IsAscii := by decide
  induction parts with
  | nil => nofun
  | cons part rest ih =>
    obtain ⟨first, others⟩ := List.forall_mem_cons.mp ascii
    cases rest with
    | nil => simpa [Text.listed] using first
    | cons next rest =>
      rw [listed_cons_cons]
      exact List.forall_mem_append.mpr ⟨first, List.forall_mem_append.mpr ⟨separator, ih others⟩⟩

mutual

theorem isAscii_text : ∀ d : Json, ∀ c ∈ d.text, c.IsAscii
  | .null => by
    rw [text]
    decide
  | .atom a => by
    rw [text]
    exact isAscii_atomText a
  | .array items => by
    have brackets : (∀ c ∈ lit "[", c.IsAscii) ∧ ∀ c ∈ lit "]", c.IsAscii := by decide
    rw [text]
    exact List.forall_mem_append.mpr
      ⟨List.forall_mem_append.mpr ⟨brackets.1, isAscii_listed (isAscii_texts items)⟩, brackets.2⟩
  | .object members => by
    have braces : (∀ c ∈ lit "\x7b", c.IsAscii) ∧ ∀ c ∈ lit "\x7d", c.IsAscii := by decide
    rw [text]
    exact List.forall_mem_append.mpr
      ⟨List.forall_mem_append.mpr ⟨braces.1, isAscii_listed (isAscii_memberTexts members)⟩, braces.2⟩

theorem isAscii_texts : ∀ items : List Json, ∀ part ∈ texts items, ∀ c ∈ part, c.IsAscii
  | [] => nofun
  | item :: items => List.forall_mem_cons.mpr ⟨isAscii_text item, isAscii_texts items⟩

theorem isAscii_memberTexts : ∀ members : List (Text × Json), ∀ part ∈ memberTexts members, ∀ c ∈ part, c.IsAscii
  | [] => nofun
  | (name, value) :: members => by
    have colon : ∀ c ∈ lit ": ", c.IsAscii := by decide
    rw [memberTexts]
    exact List.forall_mem_cons.mpr ⟨List.forall_mem_append.mpr ⟨List.forall_mem_append.mpr
      ⟨JsonToken.isAscii_quote name, colon⟩, isAscii_text value⟩, isAscii_memberTexts members⟩

end

end Json

end CallByValue
