import CallByValue.Proofs.JsonLexemes
import CallByValue.Proofs.Likeness
import CallByValue.Proofs.SurfaceTrees

/-!
# The words of the surface notation

An atom other than text is written as a word, and no two atoms share one: a numeral
denotes its number, and the few words that are no numerals differ. So the word of an
atom is its own, but for the mark that a NaN has.
-/

namespace CallByValue

open JsonToken (Numeral StartsNumeral startsNumeral_append)

/-! ## Numerals -/

theorem CodePoint.IsDigit.not_endsWord {c : CodePoint} (digit : c.IsDigit) : ¬ c.EndsWord := by
  rintro (rfl | rfl | rfl | rfl) <;> revert digit <;> decide

/-- Nothing in a numeral ends a word. -/
theorem JsonToken.Numeral.Standard.isWord {n : Numeral} (standard : n.Standard) : n.text.IsWord := by
  have digits {t : Text} (all : Text.Digits t) : ∀ c ∈ t, ¬ c.EndsWord := fun c member => (all c member).not_endsWord
  have sign : ∀ c ∈ (if n.negative then [CodePoint.ofChar '-'] else []), ¬ c.EndsWord := by
    cases n.negative <;> decide
  have fraction : ∀ c ∈ n.fractionText, ¬ c.EndsWord := by
    unfold Numeral.fractionText
    split
    · exact List.forall_mem_nil _
    · exact List.forall_mem_cons.mpr ⟨by decide, digits standard.fraction⟩
  have exponent : ∀ c ∈ n.exponentText, ¬ c.EndsWord := by
    unfold Numeral.exponentText
    split
    · exact List.forall_mem_nil _
    · have mark : ¬ (CodePoint.ofChar (if n.exponentNegative then '-' else '+')).EndsWord := by
        cases n.exponentNegative <;> decide
      exact List.forall_mem_cons.mpr ⟨by decide, List.forall_mem_cons.mpr ⟨mark, digits standard.exponent⟩⟩
  refine ⟨?_, ?_⟩
  · simp [Numeral.text, Numeral.unsignedText, standard.nonempty]
  · simpa only [Numeral.text, Numeral.unsignedText, List.forall_mem_append] using
      ⟨sign, digits standard.whole, fraction, exponent⟩

/-- Numerals are told apart by their texts. -/
theorem JsonToken.Numeral.Standard.eq_of_text {n m : Numeral} (standard : n.Standard) (other : m.Standard)
    (same : n.text = m.text) : n = m := by
  have nothing : Numeral.Ends [] := nofun
  have first := Numeral.scan?_append standard nothing
  have second := Numeral.scan?_append other nothing
  rw [same, second] at first
  exact (Prod.mk.inj (Option.some.inj first)).1.symm

theorem JsonToken.startsNumeral_iff {t : Text} : StartsNumeral t ↔
    (∃ c ∈ t.head?, c.IsDigit) ∨ t.head? = some (CodePoint.ofChar '-') ∧ ∃ c ∈ t.tail.head?, c.IsDigit := by
  constructor
  · rintro ⟨c, more, digit, rfl | rfl⟩
    · exact .inl ⟨c, rfl, digit⟩
    · exact .inr ⟨rfl, c, rfl, digit⟩
  · rintro (⟨c, first, digit⟩ | ⟨sign, c, second, digit⟩)
    · exact ⟨c, t.tail, digit, .inl (List.eq_cons_of_mem_head? first)⟩
    · refine ⟨c, t.tail.tail, digit, .inr ?_⟩
      rw [← List.eq_cons_of_mem_head? second]
      exact List.eq_cons_of_mem_head? sign

instance (t : Text) : Decidable (StartsNumeral t) := decidable_of_iff _ JsonToken.startsNumeral_iff.symm

/-! ## Atoms -/

namespace Atom

theorem isText_or_wordy (a : Atom) : (∃ t, a = .text t) ∨ ∀ t, a ≠ .text t := by
  cases a <;> simp

/-- The atoms that are written as words, but not as numerals. -/
def named : List (Atom × Text) :=
  [(.boolean true, lit "#t"), (.boolean false, lit "#f"), (.number (.float (.infinite false)), lit "inf"),
    (.number (.float (.infinite true)), lit "-inf"), (.number (.float (.nan 0)), lit "nan")]

/-- An atom is text, or has a word of its own, or is written as a numeral that denotes it. -/
theorem surface_cases {a : Atom} (wordy : ∀ t, a ≠ .text t) :
    (a.unmarked, a.surface) ∈ named ∨
      ∃ n : Numeral, n.Standard ∧ a.surface = n.text ∧ a.unmarked = .number n.value := by
  cases a with
  | text t => exact absurd rfl (wordy t)
  | boolean b => cases b <;> exact .inl (by decide)
  | number n =>
    cases n with
    | integer k =>
      refine .inr ⟨.ofInteger k, Numeral.standard_ofInteger k, (Numeral.text_ofInteger k).symm, ?_⟩
      rw [Numeral.value_ofInteger]
      rfl
    | float x =>
      cases x with
      | finite negative m =>
        obtain ⟨n, standard, -, text, value⟩ := Numeral.exists_float surfaceWords negative m
        exact .inr ⟨n, standard, text.symm, by rw [value]; rfl⟩
      | infinite negative => cases negative <;> exact .inl (by decide)
      | nan mark => exact .inl (List.mem_of_getLast? rfl)

theorem isWord_surface {a : Atom} (wordy : ∀ t, a ≠ .text t) : a.surface.IsWord := by
  rcases surface_cases wordy with listed | ⟨n, standard, text, -⟩
  · have all : ∀ entry ∈ named, entry.2.IsWord := by decide
    exact all _ listed
  · exact text ▸ standard.isWord

/-- A word that neither begins like a numeral nor is listed stands for no atom. -/
theorem surface_ne {a : Atom} (wordy : ∀ t, a ≠ .text t) {w : Text} (noNumeral : ¬ StartsNumeral w)
    (unlisted : ∀ entry ∈ named, entry.2 ≠ w) : a.surface ≠ w := by
  rintro rfl
  rcases surface_cases wordy with listed | ⟨n, standard, text, -⟩
  · exact unlisted _ listed rfl
  · exact noNumeral (by simpa [text] using startsNumeral_append standard [])

/-- Atoms with one word are one atom, whatever marks they have. -/
theorem unmarked_eq_of_surface {a b : Atom} (first : ∀ t, a ≠ .text t) (second : ∀ t, b ≠ .text t)
    (same : a.surface = b.surface) : a.unmarked = b.unmarked := by
  have noNumeral : ∀ entry ∈ named, ¬ StartsNumeral entry.2 := by decide
  have starts {n : Numeral} (standard : n.Standard) : StartsNumeral n.text := by
    simpa using startsNumeral_append standard []
  rcases surface_cases first with listed | ⟨n, standard, text, value⟩ <;>
    rcases surface_cases second with other | ⟨m, further, spelled, denoted⟩
  · have apart : ∀ p ∈ named, ∀ q ∈ named, p.2 = q.2 → p.1 = q.1 := by decide
    exact apart _ listed _ other same
  · exact absurd (starts further) (spelled ▸ same ▸ noNumeral _ listed)
  · exact absurd (starts standard) (text ▸ same ▸ noNumeral _ other)
  · rw [value, denoted, standard.eq_of_text further (by rw [← text, same, spelled])]

end Atom

end CallByValue
