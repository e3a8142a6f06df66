import CallByValue.Proofs.Reading
import Mathlib.Data.List.Find

/-!
# Line breaks between tokens

No token reaches across a line break: in a string it is refused, also behind a
backslash, and words and numerals end before it. So a text with a line break
consists of tokens if the parts before and behind it do, and has the tokens of
both. Where the tokens stand does not matter for that.
-/

namespace CallByValue

/-- A carriage return or a line feed. -/
def CodePoint.IsLineBreak (c : CodePoint) : Prop := c = CodePoint.ofChar '\r' ∨ c = CodePoint.ofChar '\n'

namespace JsonToken

variable {b : CodePoint}

/-! ## Strings -/

/-- Behind an opening quote and some pieces, the string goes on for so many code points, its closing quote
    included, and has the pieces, latest first. -/
inductive Closes : List Piece → Text → List Piece → Nat → Prop
  | quote {seen rest} : Closes seen (CodePoint.ofChar '"' :: rest) seen 1
  | unit {seen a b c d n next rest pieces length} (value : codeUnit? a b c d = some n)
      (further : Closes (addUnit seen n) (next :: rest) pieces length) :
      Closes seen (CodePoint.ofChar '\\' :: CodePoint.ofChar 'u' :: a :: b :: c :: d :: next :: rest) pieces
        (length + 6)
  | escape {seen letter c rest pieces length} (other : letter ≠ CodePoint.ofChar 'u')
      (meant : Escapes.meant? letter = some c) (further : Closes (.whole c :: seen) rest pieces length) :
      Closes seen (CodePoint.ofChar '\\' :: letter :: rest) pieces (length + 2)
  | plain {seen c rest pieces length} (open' : c ≠ CodePoint.ofChar '"') (unescaped : c ≠ CodePoint.ofChar '\\')
      (printable : 0x20 ≤ c.val) (further : Closes (.whole c :: seen) rest pieces length) :
      Closes seen (c :: rest) pieces (length + 1)

variable {seen pieces : List Piece} {t rest : Text} {length : Nat}

theorem closes_of_scanString {opening position behind : Nat}
    (scanned : scanString opening seen position t = .ok (pieces, behind)) :
    ∃ length, behind = position + length ∧ Closes seen t pieces length := by
  fun_induction scanString opening seen position t
  case case1 | case3 | case5 | case6 | case8 | case9 => cases scanned
  case case2 =>
    cases scanned
    exact ⟨1, rfl, .quote⟩
  case case4 value _ ih =>
    obtain ⟨length, rfl, closes⟩ := ih scanned
    exact ⟨length + 6, by omega, .unit value closes⟩
  case case7 other _ meant _ ih =>
    obtain ⟨length, rfl, closes⟩ := ih scanned
    exact ⟨length + 2, by omega, .escape other meant closes⟩
  case case10 open' unescaped printable ih =>
    obtain ⟨length, rfl, closes⟩ := ih scanned
    exact ⟨length + 1, by omega, .plain open' unescaped (not_lt.mp printable) closes⟩

theorem Closes.scanString (closes : Closes seen t pieces length) (opening position : Nat) :
    scanString opening seen position t = .ok (pieces, position + length) := by
  induction closes generalizing position with
  | quote => rw [JsonToken.scanString.eq_def]; simp
  | unit value _ ih =>
    have notQuote : CodePoint.ofChar '\\' ≠ CodePoint.ofChar '"' := by decide
    rw [JsonToken.scanString.eq_def]
    simp only [if_neg notQuote, value, if_true]
    rw [ih, Nat.add_right_comm, Nat.add_assoc]
  | escape other meant _ ih =>
    rw [scanString_escape opening position other meant, ih, Nat.add_right_comm, Nat.add_assoc]
  | plain open' unescaped printable _ ih =>
    rw [scanString_plain opening position open' unescaped printable, ih, Nat.add_right_comm, Nat.add_assoc]

theorem Closes.length_le (closes : Closes seen t pieces length) : length ≤ t.length := by
  induction closes <;> simp only [List.length_cons] at * <;> omega

theorem Closes.append (closes : Closes seen t pieces length) (more : Text) :
    Closes seen (t ++ more) pieces length := by
  induction closes with
  | quote => exact .quote
  | unit value _ ih => exact .unit value ih
  | escape other meant _ ih => exact .escape other meant ih
  | plain open' unescaped printable _ ih => exact .plain open' unescaped printable ih

theorem hexDigit?_lineBreak (isBreak : b.IsLineBreak) : hexDigit? b = none := by
  rcases isBreak with rfl | rfl <;> decide

theorem ne_of_codeUnit? {c₁ c₂ c₃ c₄ : CodePoint} {n : Nat} (value : codeUnit? c₁ c₂ c₃ c₄ = some n)
    (isBreak : b.IsLineBreak) : b ∉ [c₁, c₂, c₃, c₄] := by
  have noDigit := hexDigit?_lineBreak isBreak
  intro member
  simp only [List.mem_cons, List.not_mem_nil, or_false] at member
  rcases member with rfl | rfl | rfl | rfl <;> simp [codeUnit?, noDigit] at value

/-- What stands in front of an item and does not contain it is a prefix of all that does. -/
theorem exists_of_append_eq {α : Type} {b : α} (front : List α) {behind t rest : List α} (free : b ∉ front)
    (same : front ++ behind = t ++ b :: rest) : ∃ more, t = front ++ more ∧ behind = more ++ b :: rest := by
  rcases List.append_eq_append_iff.mp same with ⟨more, before, after⟩ | ⟨more, before, after⟩
  · exact ⟨more, before, after⟩
  · cases more with
    | nil => exact ⟨[], by simpa using before.symm, by simpa using after.symm⟩
    | cons c more =>
      cases after
      exact absurd (by simp [before]) free

/-- A string that closes does so before the next line break. -/
theorem Closes.of_append (closes : Closes seen (t ++ b :: rest) pieces length) (isBreak : b.IsLineBreak) :
    Closes seen t pieces length := by
  have control : b ≠ CodePoint.ofChar '"' ∧ b ≠ CodePoint.ofChar '\\' ∧ b ≠ CodePoint.ofChar 'u' ∧ ¬ 0x20 ≤ b.val ∧
      Escapes.meant? b = none := by
    rcases isBreak with rfl | rfl <;> decide
  obtain ⟨notQuote, notEscape, notUnit, unprintable, meaningless⟩ := control
  generalize whole : t ++ b :: rest = text at closes
  induction closes generalizing t with
  | @quote _ behind =>
    obtain ⟨more, rfl, -⟩ := exists_of_append_eq [CodePoint.ofChar '"'] (by simpa using notQuote) whole.symm
    exact .quote
  | @unit _ c₁ c₂ c₃ c₄ _ next behind _ _ value _ ih =>
    have digits := ne_of_codeUnit? value isBreak
    obtain ⟨more, rfl, behind⟩ := exists_of_append_eq
      [CodePoint.ofChar '\\', CodePoint.ofChar 'u', c₁, c₂, c₃, c₄] (by simp_all) whole.symm
    cases more with
    | nil => cases ih behind.symm
    | cons c more =>
      cases behind
      exact .unit value (ih rfl)
  | @escape _ letter _ behind _ _ other meant _ ih =>
    have differs : b ≠ letter := by
      rintro rfl
      rw [meaningless] at meant
      cases meant
    obtain ⟨more, rfl, behind⟩ := exists_of_append_eq [CodePoint.ofChar '\\', letter]
      (by simp [notEscape, differs]) whole.symm
    exact .escape other meant (ih behind.symm)
  | @plain _ c behind _ _ open' unescaped printable _ ih =>
    have differs : b ≠ c := by
      rintro rfl
      exact unprintable printable
    obtain ⟨more, rfl, behind⟩ := exists_of_append_eq [c] (by simpa using differs) whole.symm
    exact .plain open' unescaped printable (ih behind.symm)

/-! ## Words and numerals -/

theorem isPrefixOf_append {word : Text} (free : b ∉ word) (t rest : Text) :
    word.isPrefixOf (t ++ b :: rest) = word.isPrefixOf t := by
  induction word generalizing t with
  | nil => rfl
  | cons c word ih =>
    obtain ⟨differs, further⟩ := not_or.mp (fun member => free (List.mem_cons.mpr member))
    cases t with
    | nil => simp [List.isPrefixOf, Ne.symm differs]
    | cons d t => simp [List.isPrefixOf, ih further]

theorem not_mem_word (isBreak : b.IsLineBreak) {word : Text × Json} (member : word ∈ wordTokens) : b ∉ word.1 := by
  simp only [wordTokens, List.mem_cons, List.not_mem_nil, or_false] at member
  rcases isBreak with rfl | rfl <;> rcases member with rfl | rfl | rfl | rfl | rfl | rfl <;> decide

theorem find?_wordTokens_append (isBreak : b.IsLineBreak) (t rest : Text) :
    wordTokens.find? (fun word => word.1.isPrefixOf (t ++ b :: rest)) =
      wordTokens.find? fun word => word.1.isPrefixOf t :=
  List.find?_congr fun _ member => isPrefixOf_append (not_mem_word isBreak member) t rest

namespace Numeral

theorem digits_append_lineBreak (isBreak : b.IsLineBreak) (t rest : Text) : digits (t ++ b :: rest) = digits t := by
  have other : ¬ b.IsDigit := by rcases isBreak with rfl | rfl <;> decide
  unfold digits
  induction t with
  | nil => simp [other]
  | cons c t ih => simp [List.takeWhile_cons, ih]

theorem scanFraction_append_lineBreak (isBreak : b.IsLineBreak) (t rest : Text) :
    scanFraction (t ++ b :: rest) = scanFraction t := by
  have noPoint : b ≠ CodePoint.ofChar '.' := by rcases isBreak with rfl | rfl <;> decide
  cases t with
  | nil => simp [scanFraction, noPoint]
  | cons c t => simp [scanFraction, digits_append_lineBreak isBreak]

theorem scanExponent_append_lineBreak (isBreak : b.IsLineBreak) (t rest : Text) :
    scanExponent (t ++ b :: rest) = scanExponent t := by
  have other : b ≠ CodePoint.ofChar 'e' ∧ b ≠ CodePoint.ofChar 'E' ∧ b ≠ CodePoint.ofChar '-' ∧
      b ≠ CodePoint.ofChar '+' ∧ ¬ b.IsDigit := by rcases isBreak with rfl | rfl <;> decide
  obtain ⟨lower, upper, minus, plus, noDigit⟩ := other
  have sign (t : Text) : (splitSign (t ++ b :: rest)).1 = (splitSign t).1 ∧
      digits (splitSign (t ++ b :: rest)).2 = digits (splitSign t).2 := by
    cases t with
    | nil => simp [splitSign, minus, plus, digits, noDigit]
    | cons c t =>
      simp only [splitSign, List.cons_append]
      split_ifs
      · exact ⟨rfl, digits_append_lineBreak isBreak t rest⟩
      · exact ⟨rfl, digits_append_lineBreak isBreak t rest⟩
      · exact ⟨rfl, digits_append_lineBreak isBreak (c :: t) rest⟩
  cases t with
  | nil => simp [scanExponent, lower, upper]
  | cons c t => simp only [scanExponent, List.cons_append, sign]

theorem length_digits_le (t : Text) : (digits t).length ≤ t.length := (List.takeWhile_prefix _).length_le

theorem length_fraction_le (t : Text) :
    (if (scanFraction t).isEmpty then 0 else (scanFraction t).length + 1) ≤ t.length := by
  cases t with
  | nil => exact Nat.le_refl 0
  | cons c t =>
    have behind := length_digits_le t
    simp only [scanFraction, List.length_cons]
    split_ifs <;> simp
    omega

theorem length_splitSign_le (t : Text) :
    (digits (splitSign t).2).length + (if (splitSign t).1.isSome then 1 else 0) ≤ t.length := by
  cases t with
  | nil => exact Nat.le_refl 0
  | cons c t =>
    by_cases minus : c = CodePoint.ofChar '-'
    · simpa [splitSign, minus] using length_digits_le t
    by_cases plus : c = CodePoint.ofChar '+'
    · subst plus
      simpa [splitSign, minus] using length_digits_le t
    · simpa [splitSign, minus, plus] using length_digits_le (c :: t)

theorem length_exponent_le (t : Text) : (scanExponent t).2.2 ≤ t.length := by
  cases t with
  | nil => exact Nat.le_refl 0
  | cons c t =>
    have signed := length_splitSign_le t
    simp only [scanExponent]
    generalize splitSign t = split at signed
    obtain ⟨sign, rest⟩ := split
    cases sign <;> split_ifs <;> simp at * <;> omega

theorem scan?_append_lineBreak (isBreak : b.IsLineBreak) (t rest : Text) : scan? (t ++ b :: rest) = scan? t := by
  have noSign : b ≠ CodePoint.ofChar '-' := by rcases isBreak with rfl | rfl <;> decide
  have noDigit : ¬ b.IsDigit := by rcases isBreak with rfl | rfl <;> decide
  have sign : (t ++ b :: rest).head? = some (CodePoint.ofChar '-') ↔ t.head? = some (CodePoint.ofChar '-') := by
    cases t <;> simp [noSign]
  have unsigned : (if t.head? = some (CodePoint.ofChar '-') then (t ++ b :: rest).drop 1 else t ++ b :: rest) =
      (if t.head? = some (CodePoint.ofChar '-') then t.drop 1 else t) ++ b :: rest := by
    split_ifs with negative
    · obtain ⟨t, rfl⟩ := List.head?_eq_some_iff.mp negative
      rfl
    · rfl
  simp only [scan?, sign, unsigned]
  generalize (if t.head? = some (CodePoint.ofChar '-') then t.drop 1 else t) = unsigned
  have whole : scanWhole (unsigned ++ b :: rest) = scanWhole unsigned := by
    simp only [scanWhole, digits_append_lineBreak isBreak]
  have behind := (scanWhole_leads unsigned).length_le
  simp only [whole, List.drop_append_of_le_length behind, scanFraction_append_lineBreak isBreak,
    List.drop_append_of_le_length (length_fraction_le _), scanExponent_append_lineBreak isBreak]

theorem length_le_of_scan? {t : Text} {n : Numeral} {length : Nat} (scanned : scan? t = some (n, length)) :
    length ≤ t.length := by
  simp only [scan?, Option.ite_none_left_eq_some, Option.some.injEq, Prod.mk.injEq] at scanned
  obtain ⟨-, -, rfl⟩ := scanned
  have sign : (if t.head? = some (CodePoint.ofChar '-') then 1 else 0) +
      (if t.head? = some (CodePoint.ofChar '-') then t.drop 1 else t).length ≤ t.length := by
    split_ifs with negative
    · obtain ⟨t, rfl⟩ := List.head?_eq_some_iff.mp negative
      simp [Nat.add_comm]
    · simp
  generalize (if t.head? = some (CodePoint.ofChar '-') then t.drop 1 else t) = unsigned at *
  have whole := (scanWhole_leads unsigned).length_le
  have fraction := length_fraction_le (unsigned.drop (scanWhole unsigned).length)
  generalize behind : unsigned.drop (scanWhole unsigned).length = rest at *
  have split : (scanWhole unsigned).length + rest.length = unsigned.length := by
    rw [← behind, List.length_drop]
    omega
  generalize (if (scanFraction rest).isEmpty then 0 else (scanFraction rest).length + 1) = skipped at *
  refine (Nat.add_le_add_left (length_exponent_le _) _).trans ?_
  rw [List.length_drop]
  omega

end Numeral

/-! ## Tokens -/

theorem lexeme_quote_iff {position more : Nat} {token : JsonToken} :
    lexeme position (CodePoint.ofChar '"') t = .token token more ↔
      ∃ pieces, Closes [] t pieces more ∧ token = .string (pieces.map Piece.point).reverse := by
  rw [lexeme, if_neg (by decide), if_pos rfl]
  constructor
  · intro lexed
    split at lexed
    · next pieces behind scanned =>
      obtain ⟨length, rfl, closes⟩ := closes_of_scanString scanned
      cases lexed
      rw [show position + 1 + length - position - 1 = length by omega]
      exact ⟨pieces, closes, rfl⟩
    · cases lexed
  · rintro ⟨pieces, closes, rfl⟩
    rw [closes.scanString position (position + 1)]
    dsimp only
    rw [show position + 1 + more - position - 1 = more by omega]

/-- Whether a token begins with a code point is told from what stands before the next line break, at whatever
    position. -/
theorem lexeme_append_lineBreak (isBreak : b.IsLineBreak) (position other : Nat) (c : CodePoint) (t rest : Text)
    (token : JsonToken) (more : Nat) :
    lexeme position c (t ++ b :: rest) = .token token more ↔ lexeme other c t = .token token more := by
  by_cases quote : c = CodePoint.ofChar '"'
  · subst quote
    rw [lexeme_quote_iff, lexeme_quote_iff]
    refine exists_congr fun pieces => and_congr_left' ⟨fun closes => ?_, fun closes => ?_⟩
    · exact closes.of_append isBreak
    · exact closes.append _
  · have words := find?_wordTokens_append isBreak (c :: t) rest
    have numerals := Numeral.scan?_append_lineBreak isBreak (c :: t) rest
    rw [List.cons_append] at words numerals
    unfold lexeme
    rw [words, numerals, if_neg quote, if_neg quote]

theorem length_le_of_lexeme {position more : Nat} {c : CodePoint} {token : JsonToken}
    (lexed : lexeme position c t = .token token more) : more ≤ t.length := by
  by_cases quote : c = CodePoint.ofChar '"'
  · subst quote
    obtain ⟨pieces, closes, -⟩ := lexeme_quote_iff.mp lexed
    exact closes.length_le
  unfold lexeme at lexed
  split at lexed
  · cases lexed
  split at lexed
  · cases lexed
    exact Nat.zero_le _
  split at lexed
  · next word found =>
    cases lexed
    have spelled : word.1.isPrefixOf (c :: t) = true := by simpa using List.find?_some found
    have length := (List.isPrefixOf_iff_prefix.mp spelled).length_le
    rw [List.length_cons] at length
    omega
  split at lexed
  · next scanned =>
    have length := Numeral.length_le_of_scan? scanned
    rw [List.length_cons] at length
    split at lexed
    · cases lexed
    · cases lexed
      omega
  · cases lexed

/-- A text that consists of tokens, with blanks between them. -/
inductive CutsInto : Text → List JsonToken → Prop
  | nil : CutsInto [] []
  | blank {c t tokens} (blank : isBlank c = true) (rest : CutsInto t tokens) : CutsInto (c :: t) tokens
  | token {front t token tokens} (lexes : Lexes front t token) (rest : CutsInto t tokens) :
      CutsInto (front ++ t) (token :: tokens)

theorem isBlank_lineBreak (isBreak : b.IsLineBreak) : isBlank b = true := by
  rcases isBreak with rfl | rfl <;> rfl

theorem Lexes.append_lineBreak {front : Text} {token : JsonToken} (isBreak : b.IsLineBreak)
    (lexes : Lexes front t token) (rest : Text) : Lexes front (t ++ b :: rest) token := by
  obtain ⟨c, more, rfl, lexed⟩ := lexes
  refine ⟨c, more, rfl, fun position => ?_⟩
  rw [← List.append_assoc, lexeme_append_lineBreak isBreak position position]
  exact lexed position

/-- A token that begins before a line break ends before it, and would be the same without what follows. -/
theorem Lexes.of_append_lineBreak {front behind : Text} {token : JsonToken} (isBreak : b.IsLineBreak)
    (lexes : Lexes front behind token) (same : front ++ behind = t ++ b :: rest) :
    ∃ more, t = front ++ more ∧ behind = more ++ b :: rest ∧ Lexes front more token := by
  obtain ⟨c, more, rfl, lexed⟩ := lexes
  cases t with
  | nil =>
    cases same
    have blank := isBlank_lineBreak isBreak
    have nothing := lexed 0
    rw [lexeme, if_pos blank] at nothing
    cases nothing
  | cons d t =>
    obtain ⟨rfl, split⟩ : c = d ∧ more ++ behind = t ++ b :: rest := List.cons.inj same
    have cut (position : Nat) : lexeme position c t = .token token more.length := by
      rw [← lexeme_append_lineBreak isBreak position position c t rest, ← split]
      exact lexed position
    have within : more.length ≤ t.length := length_le_of_lexeme (cut 0)
    obtain ⟨left, rfl⟩ := List.prefix_of_prefix_length_le ⟨behind, split⟩ (List.prefix_append t _) within
    rw [List.append_assoc] at split
    exact ⟨left, rfl, List.append_cancel_left split, c, more, rfl, cut⟩

/-- A text with a line break consists of tokens if both its parts do. -/
theorem cutsInto_append_lineBreak (isBreak : b.IsLineBreak) {tokens : List JsonToken} :
    CutsInto (t ++ b :: rest) tokens ↔
      ∃ before after, tokens = before ++ after ∧ CutsInto t before ∧ CutsInto rest after := by
  constructor
  · intro cuts
    generalize whole : t ++ b :: rest = text at cuts
    induction cuts generalizing t with
    | nil => simp at whole
    | blank blank cuts ih =>
      cases t with
      | nil =>
        cases whole
        exact ⟨[], _, rfl, .nil, cuts⟩
      | cons c t =>
        cases whole
        obtain ⟨before, after, rfl, left, right⟩ := ih rfl
        exact ⟨before, after, rfl, .blank blank left, right⟩
    | token lexes _ ih =>
      obtain ⟨more, rfl, behind, lexes⟩ := lexes.of_append_lineBreak isBreak whole.symm
      obtain ⟨before, after, rfl, left, right⟩ := ih behind.symm
      exact ⟨_ :: before, after, rfl, .token lexes left, right⟩
  · rintro ⟨before, after, rfl, left, right⟩
    induction left with
    | nil => exact .blank (isBlank_lineBreak isBreak) right
    | blank blank _ ih => exact .blank blank ih
    | token lexes _ ih =>
      rw [List.append_assoc]
      exact .token (lexes.append_lineBreak isBreak rest) ih

/-! ## What is scanned -/

theorem scan_of_cutsInto {tokens : List JsonToken} (cuts : CutsInto t tokens) (seen : List Located) (position : Nat) :
    (scan seen position 0 t).ending = .finish ∧
      (scan seen position 0 t).tokens.map (·.token) = (seen.map (·.token)).reverse ++ tokens := by
  induction cuts generalizing seen position with
  | nil => simp [scan]
  | blank blank _ ih =>
    rw [scan, lexeme, if_pos blank]
    exact ih seen (position + 1)
  | token lexes _ ih =>
    rw [lexes.scan]
    obtain ⟨finish, tokens⟩ := ih (⟨_, position⟩ :: seen) (position + _)
    exact ⟨finish, by rw [tokens]; simp⟩

theorem lexeme_position {position : Nat} {c : CodePoint} {token : JsonToken} {more : Nat}
    (lexed : lexeme position c t = .token token more) (other : Nat) : lexeme other c t = .token token more := by
  have isBreak : (CodePoint.ofChar '\n').IsLineBreak := .inr rfl
  rw [← lexeme_append_lineBreak isBreak position other c t []]
  rwa [← lexeme_append_lineBreak isBreak position position c t []] at lexed

theorem isBlank_of_lexeme {position : Nat} {c : CodePoint} (lexed : lexeme position c t = .blank) :
    isBlank c = true := by
  unfold lexeme at lexed
  split at lexed
  · assumption
  · repeat' (split at lexed)
    all_goals cases lexed

/-- What is no token is no end either. -/
theorem lexeme_ne_finish (position : Nat) (c : CodePoint) (t : Text) : lexeme position c t ≠ .stop .finish := by
  unfold lexeme
  intro lexed
  repeat' (split at lexed)
  all_goals cases lexed

theorem cutsInto_of_scan {seen : List Located} {position skip : Nat}
    (finish : (scan seen position skip t).ending = .finish) : ∃ tokens, CutsInto (t.drop skip) tokens := by
  induction t generalizing seen position skip with
  | nil => exact ⟨[], by rw [List.drop_nil]; exact .nil⟩
  | cons c t ih =>
    unfold scan at finish
    split at finish
    · exact ih finish
    · split at finish
      · next lexed =>
        obtain ⟨tokens, cuts⟩ := ih finish
        exact ⟨tokens, .blank (isBlank_of_lexeme lexed) cuts⟩
      · next token more lexed =>
        obtain ⟨tokens, cuts⟩ := ih finish
        have within := length_le_of_lexeme lexed
        have lexes : Lexes (c :: t.take more) (t.drop more) token := by
          refine ⟨c, t.take more, rfl, fun other => ?_⟩
          rw [List.take_append_drop, List.length_take_of_le within]
          exact lexeme_position lexed other
        have cut := CutsInto.token lexes cuts
        rw [List.cons_append, List.take_append_drop] at cut
        exact ⟨_, cut⟩
      · next lexed =>
        obtain rfl : _ = JsonEnd.finish := finish
        exact absurd lexed (lexeme_ne_finish _ _ _)

/-- The tokens that a text consists of are the ones that are scanned. -/
theorem cutsInto_iff {tokens : List JsonToken} :
    CutsInto t tokens ↔ (ofText t).ending = .finish ∧ (ofText t).tokens.map (·.token) = tokens := by
  constructor
  · exact fun cuts => scan_of_cutsInto cuts [] 0
  · rintro ⟨finish, rfl⟩
    obtain ⟨tokens, cuts⟩ := cutsInto_of_scan finish
    rw [List.drop_zero] at cuts
    rw [ofText, (scan_of_cutsInto cuts [] 0).2]
    exact cuts

end JsonToken

end CallByValue
