import CallByValue.JsonReader
import CallByValue.Proofs.JsonData

/-!
# Tokens are cut where they were written

The text of a token is one lexeme of the text it stands in front of. The other
way round, the tokens cut from a text without surrogates hold nothing that could
not be written and read back.
-/

namespace CallByValue.JsonToken
open Text Numeral

/-! ## Cutting what was written -/

/-- In front of `rest` the text `t` is one lexeme, the token. -/
def Lexes (t rest : Text) (token : JsonToken) : Prop :=
  ∃ c more, t = c :: more ∧ ∀ position, lexeme position c (more ++ rest) = .token token more.length

theorem scan_skip (seen : List Located) (position : Nat) (t rest : Text) :
    scan seen position t.length (t ++ rest) = scan seen (position + t.length) 0 rest := by
  induction t generalizing position with
  | nil => rfl
  | cons c t ih =>
    rw [List.length_cons, List.cons_append, scan, ih, Nat.add_assoc, Nat.add_comm 1]

theorem Lexes.scan {t rest : Text} {token : JsonToken} (lexes : Lexes t rest token) (seen : List Located)
    (position : Nat) :
    scan seen position 0 (t ++ rest) = scan (⟨token, position⟩ :: seen) (position + t.length) 0 rest := by
  obtain ⟨c, more, rfl, lexed⟩ := lexes
  rw [List.cons_append, JsonToken.scan, lexed]
  dsimp only
  rw [scan_skip, List.length_cons, Nat.add_assoc, Nat.add_comm 1]

theorem lexes_leftBracket (rest : Text) : Lexes (lit "[") rest .leftBracket := ⟨_, _, rfl, fun _ => rfl⟩

theorem lexes_rightBracket (rest : Text) : Lexes (lit "]") rest .rightBracket := ⟨_, _, rfl, fun _ => rfl⟩

theorem lexes_comma (rest : Text) : Lexes (lit ",") rest .comma := ⟨_, _, rfl, fun _ => rfl⟩

theorem lexes_null (rest : Text) : Lexes (lit "null") rest (.scalar .null) := ⟨_, _, rfl, fun _ => rfl⟩

theorem lexes_string {t : Text} (joined : Joined t) (rest : Text) : Lexes (Escapes.quote t) rest (.string t) := by
  refine ⟨CodePoint.ofChar '"', t.flatMap Escapes.point ++ lit "\"", rfl, fun position => ?_⟩
  have apart (c : CodePoint) (_ : t.head? = some c) : Apart [] c := nofun
  obtain ⟨pieces, scanned, points⟩ := scanString_quoted joined position (position + 1) apart rest
  have body : (t.flatMap Escapes.point ++ lit "\"") ++ rest =
      t.flatMap Escapes.point ++ CodePoint.ofChar '"' :: rest := List.append_assoc ..
  have read : (pieces.map Piece.point).reverse = t := by
    rw [points, List.map_nil, List.append_nil, List.reverse_reverse]
  have length : position + 1 + (t.flatMap Escapes.point).length + 1 - position - 1 =
      (t.flatMap Escapes.point ++ lit "\"").length := by
    have mark : (lit "\"").length = 1 := rfl
    rw [List.length_append, mark]
    omega
  rw [lexeme, if_neg (by decide), if_pos rfl, body, scanned]
  dsimp only
  rw [read, length]

/-! A numeral begins like no other token. -/

/-- The text begins with a digit, perhaps behind a minus sign. -/
def StartsNumeral (t : Text) : Prop :=
  ∃ c more, c.IsDigit ∧ (t = c :: more ∨ t = CodePoint.ofChar '-' :: c :: more)

theorem startsNumeral_append {n : Numeral} (standard : n.Standard) (rest : Text) :
    StartsNumeral (n.text ++ rest) := by
  obtain ⟨d, ds, split⟩ := List.exists_cons_of_ne_nil standard.nonempty
  refine ⟨d, ds ++ (n.fractionText ++ n.exponentText) ++ rest, standard.whole d (split ▸ List.mem_cons_self), ?_⟩
  cases negative : n.negative with
  | false =>
    left
    simp [Numeral.text, negative, unsignedText, split]
  | true =>
    right
    simp [Numeral.text, negative, unsignedText, split]

theorem StartsNumeral.head {t : Text} (starts : StartsNumeral t) :
    ∃ c more, t = c :: more ∧ (c.IsDigit ∨ c = CodePoint.ofChar '-') := by
  obtain ⟨c, more, digit, rfl | rfl⟩ := starts
  · exact ⟨c, more, rfl, .inl digit⟩
  · exact ⟨_, _, rfl, .inr rfl⟩

theorem StartsNumeral.not_mark {c : CodePoint} (first : c.IsDigit ∨ c = CodePoint.ofChar '-') :
    isBlank c = false ∧ c ≠ CodePoint.ofChar '"' ∧
      marks.find? (fun mark => CodePoint.ofChar mark.1 = c) = none := by
  refine ⟨?_, ?_, ?_⟩
  · rcases first with digit | rfl
    · have value := digit.1
      simp only [isBlank, Bool.or_eq_false_iff, decide_eq_false_iff_not]
      omega
    · decide
  · rintro rfl
    revert first
    decide
  · rw [List.find?_eq_none]
    intro mark member same
    have spelled : CodePoint.ofChar mark.1 = c := by simpa using same
    rw [← spelled] at first
    simp only [marks, List.mem_cons, List.not_mem_nil, or_false] at member
    rcases member with rfl | rfl | rfl | rfl | rfl | rfl <;> revert first <;> decide

theorem letter_of_mem_wordTokens {word : Text × Json} (member : word ∈ wordTokens) :
    ∃ d behind, ¬ d.IsDigit ∧ d ≠ CodePoint.ofChar '-' ∧
      (word.1 = d :: behind ∨ word.1 = CodePoint.ofChar '-' :: d :: behind) := by
  simp only [wordTokens, List.mem_cons, List.not_mem_nil, or_false] at member
  rcases member with rfl | rfl | rfl | rfl | rfl | rfl
  case inr.inr.inr.inr.inr => exact ⟨CodePoint.ofChar 'I', _, by decide, by decide, .inr rfl⟩
  all_goals exact ⟨_, _, by decide, by decide, .inl rfl⟩

theorem StartsNumeral.not_word {t : Text} (starts : StartsNumeral t) :
    wordTokens.find? (fun word => word.1.isPrefixOf t) = none := by
  rw [List.find?_eq_none]
  intro word member spelled
  obtain ⟨c, more, digit, begins⟩ := starts
  obtain ⟨d, behind, letter, noSign, written⟩ := letter_of_mem_wordTokens member
  obtain ⟨rest, split⟩ := List.isPrefixOf_iff_prefix.mp spelled
  rcases begins with rfl | rfl <;> rcases written with word | word <;> rw [word] at split
  · have same : d = c := (List.cons.inj split).1
    exact letter (same ▸ digit)
  · have sign : CodePoint.ofChar '-' = c := (List.cons.inj split).1
    rw [← sign] at digit
    revert digit
    decide
  · exact noSign (List.cons.inj split).1
  · have same : d = c := (List.cons.inj (List.cons.inj split).2).1
    exact letter (same ▸ digit)

/-- A numeral is a lexeme: a token, unless it is too long. -/
theorem lexeme_numeral {n : Numeral} (standard : n.Standard) {rest : Text} (ends : Ends rest) :
    ∃ c more, n.text = c :: more ∧ ∀ position, lexeme position c (more ++ rest) =
      if n.isTooLong then .stop (.longNumeral n.whole.length)
      else .token (.scalar (.atom (.number n.value))) more.length := by
  have starts := startsNumeral_append standard rest
  have scanned := scan?_append standard ends
  obtain ⟨c, more, split⟩ : ∃ c more, n.text = c :: more := by
    obtain ⟨c, more, split, -⟩ := (startsNumeral_append standard []).head
    exact ⟨c, more, by rwa [List.append_nil] at split⟩
  refine ⟨c, more, split, fun position => ?_⟩
  rw [split, List.cons_append] at starts scanned
  obtain ⟨d, others, same, first⟩ := starts.head
  cases same
  obtain ⟨blank, quote, mark⟩ := StartsNumeral.not_mark first
  simp only [lexeme, blank, Bool.false_eq_true, if_false, if_neg quote, mark, starts.not_word, scanned,
    List.length_cons, Nat.add_sub_cancel]

theorem lexes_numeral {n : Numeral} (standard : n.Standard) (few : n.isTooLong = false) {rest : Text}
    (ends : Ends rest) : Lexes n.text rest (.scalar (.atom (.number n.value))) := by
  obtain ⟨c, more, split, lexed⟩ := lexeme_numeral standard ends
  refine ⟨c, more, split, fun position => ?_⟩
  rw [lexed, if_neg (by simp [few])]

/-- The token of an atom. -/
def ofAtom : Atom → JsonToken
  | .text t => .string t
  | a => .scalar (.atom a)

theorem lexes_atom {a : Atom} (readable : a.Readable) {rest : Text} (ends : Ends rest) :
    Lexes (Json.atomText a) rest (ofAtom a) := by
  match a with
  | .boolean true | .boolean false => exact ⟨_, _, rfl, fun _ => rfl⟩
  | .number (.integer n) =>
    have lexes := lexes_numeral (standard_ofInteger n) (isTooLong_ofInteger readable) ends
    rwa [text_ofInteger, value_ofInteger] at lexes
  | .number (.float (.finite negative m)) =>
    obtain ⟨n, standard, few, text, value⟩ := exists_float Json.words negative m
    have lexes := lexes_numeral standard few ends
    rwa [text, value] at lexes
  | .number (.float (.infinite true)) | .number (.float (.infinite false)) => exact ⟨_, _, rfl, fun _ => rfl⟩
  | .number (.float (.nan mark)) =>
    cases readable
    exact ⟨_, _, rfl, fun _ => rfl⟩
  | .text t => exact lexes_string readable rest

/-! ## Cutting any text -/

/-- The token holds nothing that could not be written and read back. -/
def Sound : JsonToken → Prop
  | .string t => Joined t
  | .scalar datum => datum.nesting = 0 ∧ ∀ a ∈ datum.atoms, a.Readable
  | _ => True

theorem sound_word {word : Text × Json} (member : word ∈ wordTokens) : Sound (.scalar word.2) := by
  simp only [wordTokens, List.mem_cons, List.not_mem_nil, or_false] at member
  rcases member with rfl | rfl | rfl | rfl | rfl | rfl <;> simp [Sound, Json.nesting, Json.atoms, Atom.Readable]

theorem sound_mark {mark : Char × JsonToken} (member : mark ∈ marks) : Sound mark.2 := by
  simp only [marks, List.mem_cons, List.not_mem_nil, or_false] at member
  rcases member with rfl | rfl | rfl | rfl | rfl | rfl <;> trivial

theorem digits_scanWhole (t : Text) : Digits (scanWhole t) := by
  have all : Digits (digits t) := fun c member => by simpa using List.mem_takeWhile_imp member
  unfold scanWhole
  split
  · nofun
  · next d ds split =>
    rw [split] at all
    split
    · exact List.forall_mem_singleton.mpr (all d List.mem_cons_self)
    · exact all

/-- The digits before the point are scanned behind the sign. -/
theorem whole_of_scan? {t : Text} {n : Numeral} {length : Nat} (scanned : scan? t = some (n, length)) :
    ∃ unsigned, unsigned <:+ t ∧ n.whole = scanWhole unsigned := by
  simp only [scan?, Option.ite_none_left_eq_some, Option.some.injEq, Prod.mk.injEq] at scanned
  obtain ⟨-, same, -⟩ := scanned
  rw [← same]
  refine ⟨_, ?_, rfl⟩
  split
  · exact List.drop_suffix 1 t
  · exact List.suffix_rfl

theorem readable_value {t : Text} {n : Numeral} {length : Nat} (scanned : scan? t = some (n, length))
    (few : n.isTooLong = false) : Atom.Readable (.number n.value) := by
  have whole : Digits n.whole := by
    obtain ⟨unsigned, -, same⟩ := whole_of_scan? scanned
    exact same ▸ digits_scanWhole unsigned
  cases integral : n.isIntegral with
  | false =>
    simp only [value, integral, Bool.false_eq_true, if_false, Binary64.ofDecimal]
    split <;> trivial
  | true =>
    have short : n.whole.length ≤ digitLimit := by
      simpa [isTooLong, integral] using few
    have bound := toNat_lt_of_length whole short
    simp only [value, integral, if_true, Atom.Readable]
    split
    · rwa [Int.natAbs_neg, Int.natAbs_natCast]
    · rwa [Int.natAbs_natCast]

theorem sound_lexeme {position : Nat} {c : CodePoint} {rest : Text} {token : JsonToken} {more : Nat}
    (plain : ∀ d ∈ c :: rest, ¬ d.IsSurrogate) (lexed : lexeme position c rest = .token token more) :
    Sound token := by
  unfold lexeme at lexed
  split at lexed
  · cases lexed
  split at lexed
  · split at lexed
    · next pieces behind scanned =>
      cases lexed
      exact joined_of_scanString (fun d member => plain d (List.mem_cons_of_mem c member)) scanned
    · cases lexed
  split at lexed
  · next mark found =>
    cases lexed
    exact sound_mark (List.mem_of_find?_eq_some found)
  split at lexed
  · next word found =>
    cases lexed
    exact sound_word (List.mem_of_find?_eq_some found)
  split at lexed
  · next n length scanned =>
    split at lexed
    · cases lexed
    · next few =>
      cases lexed
      have readable := readable_value scanned (by simpa using few)
      exact ⟨rfl, List.forall_mem_singleton.mpr readable⟩
  · cases lexed

theorem sound_scan {t : Text} (plain : ∀ d ∈ t, ¬ d.IsSurrogate) {seen : List Located} {position skip : Nat}
    (sound : ∀ located ∈ seen, Sound located.token) :
    ∀ located ∈ (scan seen position skip t).tokens, Sound located.token := by
  induction t generalizing seen position skip with
  | nil => simpa [scan] using sound
  | cons c rest ih =>
    have behind (d : CodePoint) (member : d ∈ rest) : ¬ d.IsSurrogate := plain d (List.mem_cons_of_mem c member)
    unfold scan
    split
    · exact ih behind sound
    · split
      · exact ih behind sound
      · next token more lexed =>
        exact ih behind (List.forall_mem_cons.mpr ⟨sound_lexeme plain lexed, sound⟩)
      · simpa using sound

end CallByValue.JsonToken
