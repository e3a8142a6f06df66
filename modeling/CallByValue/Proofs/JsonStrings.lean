import CallByValue.JsonTokens
import Mathlib.Data.List.Chain
import Mathlib.Tactic.IntervalCases

/-!
# Strings are read as they are written

A high surrogate that is followed at once by a low one cannot be written: read
again, the two escapes are one code point. Every other text is read as it is
written, and every text that is read from code points without surrogates can be
written.
-/

namespace CallByValue

namespace CodePoint

/-- One of the first halves of a surrogate pair. -/
def IsHigh (c : CodePoint) : Prop := 0xD800 ≤ c.val ∧ c.val ≤ 0xDBFF

instance (c : CodePoint) : Decidable c.IsHigh := inferInstanceAs (Decidable (_ ∧ _))

/-- One of the second halves of a surrogate pair. -/
def IsLow (c : CodePoint) : Prop := 0xDC00 ≤ c.val ∧ c.val ≤ 0xDFFF

instance (c : CodePoint) : Decidable c.IsLow := inferInstanceAs (Decidable (_ ∧ _))

theorem ofNat_val (c : CodePoint) : ofNat c.val = c := dif_pos c.val_lt

theorem val_ofNat {n : Nat} (valid : n < 0x110000) : (ofNat n).val = n := by
  rw [ofNat, dif_pos valid]

end CodePoint

/-- No two neighbours make up a surrogate pair. -/
def Text.Joined (t : Text) : Prop := t.IsChain fun a b => a.IsHigh → ¬ b.IsLow

instance (t : Text) : Decidable (Text.Joined t) :=
  inferInstanceAs (Decidable (t.IsChain fun a b => a.IsHigh → ¬ b.IsLow))

/-! ## Hexadecimal digits -/

namespace Text

/-- A hexadecimal digit in lower case. -/
def hexDigit (n : Nat) : CodePoint := CodePoint.ofChar n.digitChar

theorem hexadecimal_one {n : Nat} (small : n < 16) : hexadecimal 1 n = [hexDigit n] := by
  simp [hexadecimal, Nat.toDigits_of_lt_base small, hexDigit]

theorem hexadecimal_succ {width : Nat} (positive : 0 < width) (n : Nat) :
    hexadecimal (width + 1) n = hexadecimal width (n / 16) ++ [hexDigit (n % 16)] := by
  by_cases small : n < 16
  · have nothing : n / 16 = 0 := Nat.div_eq_of_lt small
    obtain ⟨k, rfl⟩ := Nat.exists_eq_succ_of_ne_zero positive.ne'
    simp [hexadecimal, Nat.toDigits_of_lt_base small, nothing, Nat.mod_eq_of_lt small, hexDigit, List.replicate_succ']
  · simp [hexadecimal, Nat.toDigits_of_base_le (by decide : 1 < 16) (not_lt.mp small), hexDigit]

theorem hexadecimal_four {n : Nat} (small : n < 0x10000) :
    hexadecimal 4 n =
      [hexDigit (n / 16 / 16 / 16), hexDigit (n / 16 / 16 % 16), hexDigit (n / 16 % 16), hexDigit (n % 16)] := by
  rw [hexadecimal_succ (by decide), hexadecimal_succ (by decide), hexadecimal_succ (by decide),
    hexadecimal_one (by omega)]
  rfl

theorem isAscii_hexDigit {n : Nat} (small : n < 16) : (hexDigit n).IsAscii := by
  interval_cases n <;> decide

end Text

namespace JsonToken
open Text

theorem hexDigit?_hexDigit {n : Nat} (small : n < 16) : hexDigit? (hexDigit n) = some n := by
  interval_cases n <;> decide

theorem codeUnit?_hexadecimal {n : Nat} (small : n < 0x10000) :
    codeUnit? (hexDigit (n / 16 / 16 / 16)) (hexDigit (n / 16 / 16 % 16)) (hexDigit (n / 16 % 16))
      (hexDigit (n % 16)) = some n := by
  simp only [codeUnit?, hexDigit?_hexDigit (by omega : n / 16 / 16 / 16 < 16),
    hexDigit?_hexDigit (Nat.mod_lt _ (by decide : 0 < 16))]
  congr 1
  omega

/-! ## What the escapes stand for -/

theorem of_letter? {c letter : CodePoint} (short : Escapes.letter? c = some letter) :
    letter ≠ CodePoint.ofChar 'u' ∧ letter.IsAscii ∧ Escapes.meant? letter = some c := by
  obtain ⟨pair, found, rfl⟩ := Option.map_eq_some_iff.mp short
  have meaning : CodePoint.ofChar pair.2 = c := by simpa using List.find?_some found
  have member := List.mem_of_find?_eq_some found
  rw [← meaning]
  simp only [Escapes.short, List.mem_cons, List.not_mem_nil, or_false] at member
  rcases member with rfl | rfl | rfl | rfl | rfl | rfl | rfl <;> decide

theorem of_letter?_eq_none {c : CodePoint} (none : Escapes.letter? c = none) :
    c ≠ CodePoint.ofChar '"' ∧ c ≠ CodePoint.ofChar '\\' := by
  constructor <;> rintro rfl <;> revert none <;> decide

/-- The piece that an escaped code unit is read as. -/
def unitPiece (c : CodePoint) : Piece := if c.IsHigh then .openHalf c else .whole c

theorem point_unitPiece (c : CodePoint) : (unitPiece c).point = c := by
  unfold unitPiece
  split <;> rfl

/-- The piece read last does not wait for the code point. -/
def Apart (seen : List Piece) (c : CodePoint) : Prop := ∀ half before, seen = .openHalf half :: before → ¬ c.IsLow

theorem addUnit_apart {seen : List Piece} {c : CodePoint} (apart : Apart seen c) :
    addUnit seen c.val = unitPiece c :: seen := by
  have push : (if 0xD800 ≤ c.val ∧ c.val ≤ 0xDBFF then .openHalf c :: seen else .whole c :: seen) =
      unitPiece c :: seen := by
    by_cases high : c.IsHigh
    · rw [unitPiece, if_pos high]
      exact if_pos high
    · rw [unitPiece, if_neg high]
      exact if_neg high
  rcases seen with _ | ⟨_ | half, before⟩
  · simpa only [addUnit, CodePoint.ofNat_val] using push
  · simpa only [addUnit, CodePoint.ofNat_val] using push
  · have notLow : ¬ (0xDC00 ≤ c.val ∧ c.val ≤ 0xDFFF) := apart half before rfl
    simpa only [addUnit, CodePoint.ofNat_val, if_neg notLow] using push

/-- An open half and the low half that follows it are one code point. -/
theorem addUnit_pair {c half : CodePoint} {low : Nat} (beyond : 0x10000 ≤ c.val)
    (first : half.val = 0xD800 + (c.val - 0x10000) / 0x400) (second : low = 0xDC00 + (c.val - 0x10000) % 0x400)
    (before : List Piece) : addUnit (.openHalf half :: before) low = .whole c :: before := by
  have isLow : 0xDC00 ≤ low ∧ low ≤ 0xDFFF := by omega
  have value : 0x10000 + (half.val - 0xD800) * 0x400 + (low - 0xDC00) = c.val := by omega
  simp only [addUnit, if_pos isLow, value, CodePoint.ofNat_val]

section
variable (opening : Nat) {seen : List Piece} (position : Nat)

theorem scanString_escape {letter c : CodePoint} (notUnit : letter ≠ CodePoint.ofChar 'u')
    (meant : Escapes.meant? letter = some c) (rest : Text) :
    scanString opening seen position (CodePoint.ofChar '\\' :: letter :: rest) =
      scanString opening (.whole c :: seen) (position + 2) rest := by
  have notQuote : CodePoint.ofChar '\\' ≠ CodePoint.ofChar '"' := by decide
  rw [scanString.eq_def]
  simp only [if_neg notQuote, if_neg notUnit, meant, if_true]

theorem scanString_unit {n : Nat} (small : n < 0x10000) (next : CodePoint) (rest : Text) :
    scanString opening seen position (Escapes.unit n ++ next :: rest) =
      scanString opening (addUnit seen n) (position + 6) (next :: rest) := by
  have notQuote : CodePoint.ofChar '\\' ≠ CodePoint.ofChar '"' := by decide
  have spelled : Escapes.unit n ++ next :: rest = CodePoint.ofChar '\\' :: CodePoint.ofChar 'u' ::
      hexDigit (n / 16 / 16 / 16) :: hexDigit (n / 16 / 16 % 16) :: hexDigit (n / 16 % 16) :: hexDigit (n % 16) ::
        next :: rest := by
    rw [Escapes.unit, hexadecimal_four small]
    rfl
  rw [spelled, scanString.eq_def]
  simp only [if_neg notQuote, codeUnit?_hexadecimal small, if_true]

/-- Two escapes, the first of a high and the second of a low surrogate, are read as one code point. -/
theorem scanString_pair {c half : CodePoint} {low : Nat} (beyond : 0x10000 ≤ c.val)
    (first : half.val = 0xD800 + (c.val - 0x10000) / 0x400) (second : low = 0xDC00 + (c.val - 0x10000) % 0x400)
    (next : CodePoint) (rest : Text) (apart : Apart seen half) :
    scanString opening seen position (Escapes.unit half.val ++ (Escapes.unit low ++ next :: rest)) =
      scanString opening (.whole c :: seen) (position + 12) (next :: rest) := by
  have valid := c.val_lt
  have high : half.IsHigh := by
    unfold CodePoint.IsHigh
    omega
  have opens : addUnit seen half.val = .openHalf half :: seen := by
    rw [addUnit_apart apart, unitPiece, if_pos high]
  obtain ⟨mark, digits, split⟩ : ∃ mark digits, Escapes.unit low = mark :: digits :=
    List.exists_cons_of_ne_nil (List.append_ne_nil_of_left_ne_nil (List.cons_ne_nil _ _) _)
  rw [split, List.cons_append, scanString_unit opening position (by omega), opens, ← List.cons_append, ← split,
    scanString_unit opening (position + 6) (by omega), addUnit_pair beyond first second]

theorem scanString_plain {c : CodePoint} (notQuote : c ≠ CodePoint.ofChar '"')
    (notEscape : c ≠ CodePoint.ofChar '\\') (printable : 0x20 ≤ c.val) (rest : Text) :
    scanString opening seen position (c :: rest) = scanString opening (.whole c :: seen) (position + 1) rest := by
  rw [scanString.eq_def]
  simp only [if_neg notQuote, if_neg notEscape, if_neg (not_lt.mpr printable)]

end

theorem length_unit {n : Nat} (small : n < 0x10000) : (Escapes.unit n).length = 6 := by
  rw [Escapes.unit, hexadecimal_four small]
  rfl

theorem isHigh_of_unitPiece {c half : CodePoint} (open' : unitPiece c = .openHalf half) : half.IsHigh := by
  unfold unitPiece at open'
  split at open'
  · next high =>
    cases open'
    exact high
  · cases open'

/-- A code point is read back as one piece, if no half of a pair waits for it. -/
theorem scanString_point (c : CodePoint) : ∃ piece : Piece, piece.point = c ∧
    (∀ half, piece = .openHalf half → half.IsHigh) ∧
    ∀ opening seen position next rest, Apart seen c →
      scanString opening seen position (Escapes.point c ++ next :: rest) =
        scanString opening (piece :: seen) (position + (Escapes.point c).length) (next :: rest) := by
  unfold Escapes.point
  cases short : Escapes.letter? c with
  | some letter =>
    obtain ⟨notUnit, -, meant⟩ := of_letter? short
    exact ⟨.whole c, rfl, nofun, fun opening seen position next rest _ =>
      scanString_escape opening position notUnit meant (next :: rest)⟩
  | none =>
    obtain ⟨notQuote, notEscape⟩ := of_letter?_eq_none short
    dsimp only
    split
    · next printable =>
      exact ⟨.whole c, rfl, nofun, fun opening seen position next rest _ =>
        scanString_plain opening position notQuote notEscape printable.1 (next :: rest)⟩
    split
    · next small =>
      refine ⟨unitPiece c, point_unitPiece c, fun half => isHigh_of_unitPiece, ?_⟩
      intro opening seen position next rest apart
      rw [scanString_unit opening position small, addUnit_apart apart, length_unit small]
    · next large =>
      have valid := c.val_lt
      have value := CodePoint.val_ofNat (by omega : 0xD800 + (c.val - 0x10000) / 0x400 < 0x110000)
      refine ⟨.whole c, rfl, nofun, ?_⟩
      intro opening seen position next rest apart
      have notLow : Apart seen (CodePoint.ofNat (0xD800 + (c.val - 0x10000) / 0x400)) := by
        intro half before _ low
        rw [CodePoint.IsLow, value] at low
        omega
      have read := scanString_pair opening position (by omega) value rfl next rest notLow
      rw [value] at read
      rw [List.append_assoc, read, List.length_append, length_unit (by omega), length_unit (by omega)]

/-- A text without a pair of surrogates is read back from its escapes. -/
theorem scanString_quoted {t : Text} (joined : Text.Joined t) (opening : Nat) {seen : List Piece} (position : Nat)
    (apart : ∀ c, t.head? = some c → Apart seen c) (rest : Text) :
    ∃ pieces, scanString opening seen position (t.flatMap Escapes.point ++ CodePoint.ofChar '"' :: rest) =
        .ok (pieces, position + (t.flatMap Escapes.point).length + 1) ∧
      pieces.map Piece.point = t.reverse ++ seen.map Piece.point := by
  induction t generalizing seen position with
  | nil =>
    refine ⟨seen, ?_, rfl⟩
    rw [List.flatMap_nil, List.nil_append, scanString.eq_def]
    simp
  | cons c t ih =>
    obtain ⟨piece, same, halves, read⟩ := scanString_point c
    have tail : Text.Joined t := (List.isChain_cons.mp joined).2
    have follows (d : CodePoint) (head : t.head? = some d) : Apart (piece :: seen) d := by
      intro half before last
      have latest : piece = .openHalf half := (List.cons.inj last).1
      have high : c.IsHigh := by
        rw [← same, latest]
        exact halves half latest
      obtain ⟨more, rfl⟩ := List.head?_eq_some_iff.mp head
      exact (List.isChain_cons_cons.mp joined).1 high
    obtain ⟨next, behind, split⟩ : ∃ next behind,
        t.flatMap Escapes.point ++ CodePoint.ofChar '"' :: rest = next :: behind :=
      List.exists_cons_of_ne_nil (List.append_ne_nil_of_right_ne_nil _ (List.cons_ne_nil _ _))
    obtain ⟨pieces, scanned, points⟩ := ih tail (position + (Escapes.point c).length) follows
    refine ⟨pieces, ?_, ?_⟩
    · rw [List.flatMap_cons, List.append_assoc, split, read _ _ _ _ _ (apart c rfl), ← split, scanned,
        List.length_append]
      simp only [Nat.add_assoc]
    · rw [points, List.map_cons, same]
      simp

/-! ## Strings that can be read -/

/-- What holds of pieces, latest first, that are read from code points without surrogates: a high
    surrogate is an open half, and no low one follows it. -/
structure Kept (seen : List Piece) : Prop where
  wholes : ∀ c, .whole c ∈ seen → ¬ c.IsHigh
  pairs : seen.IsChain fun later earlier => earlier.point.IsHigh → ¬ later.point.IsLow

theorem Kept.nil : Kept [] := ⟨nofun, .nil⟩

theorem Kept.tail {piece : Piece} {seen : List Piece} (kept : Kept (piece :: seen)) : Kept seen :=
  ⟨fun c member => kept.wholes c (List.mem_cons_of_mem _ member), (List.isChain_cons.mp kept.pairs).2⟩

theorem Kept.push {seen : List Piece} (kept : Kept seen) {piece : Piece}
    (whole : ∀ c, piece = .whole c → ¬ c.IsHigh)
    (apart : ∀ earlier ∈ seen.head?, earlier.point.IsHigh → ¬ piece.point.IsLow) : Kept (piece :: seen) := by
  refine ⟨fun c member => ?_, List.isChain_cons.mpr ⟨apart, kept.pairs⟩⟩
  rcases List.mem_cons.mp member with same | before
  · exact whole c same.symm
  · exact kept.wholes c before

theorem Kept.push_whole {seen : List Piece} (kept : Kept seen) {c : CodePoint} (notHigh : ¬ c.IsHigh)
    (notLow : ¬ c.IsLow) : Kept (.whole c :: seen) :=
  kept.push (fun _ same => Piece.whole.inj same ▸ notHigh) fun _ _ _ => notLow

theorem Kept.push_half {seen : List Piece} (kept : Kept seen) {c : CodePoint} (high : c.IsHigh) :
    Kept (.openHalf c :: seen) := by
  refine kept.push nofun fun _ _ _ low => ?_
  unfold CodePoint.IsHigh at high
  unfold CodePoint.IsLow Piece.point at low
  dsimp only at low
  omega

theorem ofNat_val_or (n : Nat) : (CodePoint.ofNat n).val = n ∨ (CodePoint.ofNat n).val = 0xFFFD := by
  unfold CodePoint.ofNat
  split
  · exact .inl rfl
  · exact .inr rfl

theorem Kept.addUnit {seen : List Piece} (kept : Kept seen) (n : Nat) : Kept (addUnit seen n) := by
  have size := ofNat_val_or n
  -- Without an open half that it completes, the unit is a piece of its own.
  have alone (open' : ∀ earlier ∈ seen.head?, earlier.point.IsHigh → ¬ (CodePoint.ofNat n).IsLow) :
      Kept (if 0xD800 ≤ n ∧ n ≤ 0xDBFF then .openHalf (CodePoint.ofNat n) :: seen
        else .whole (CodePoint.ofNat n) :: seen) := by
    split
    · next high =>
      apply kept.push_half
      rw [CodePoint.IsHigh, CodePoint.val_ofNat (by omega)]
      exact high
    · next other =>
      refine kept.push (fun c same => ?_) open'
      cases same
      unfold CodePoint.IsHigh
      omega
  rcases seen with _ | ⟨c | half, before⟩
  · exact alone nofun
  · exact alone fun earlier head high => absurd high (by
      cases head
      exact kept.wholes c List.mem_cons_self)
  · unfold JsonToken.addUnit
    dsimp only
    split
    · have large := ofNat_val_or (0x10000 + (half.val - 0xD800) * 0x400 + (n - 0xDC00))
      apply kept.tail.push_whole
      · unfold CodePoint.IsHigh
        omega
      · unfold CodePoint.IsLow
        omega
    · next notLow =>
      apply alone
      intro _ _ _
      unfold CodePoint.IsLow
      omega

theorem not_isSurrogate_of_meant? {letter c : CodePoint} (meant : Escapes.meant? letter = some c) :
    ¬ c.IsHigh ∧ ¬ c.IsLow := by
  unfold Escapes.meant? at meant
  split at meant
  · next slash =>
    cases meant
    rw [slash]
    decide
  · obtain ⟨pair, found, rfl⟩ := Option.map_eq_some_iff.mp meant
    have member := List.mem_of_find?_eq_some found
    simp only [Escapes.short, List.mem_cons, List.not_mem_nil, or_false] at member
    rcases member with rfl | rfl | rfl | rfl | rfl | rfl | rfl <;> decide

theorem kept_of_scanString {opening : Nat} {seen : List Piece} {position : Nat} {t : Text} {pieces : List Piece}
    {behind : Nat} (plain : ∀ c ∈ t, ¬ c.IsSurrogate) (kept : Kept seen)
    (scanned : scanString opening seen position t = .ok (pieces, behind)) : Kept pieces := by
  fun_induction scanString opening seen position t
  case case1 | case3 | case5 | case6 | case8 | case9 => cases scanned
  case case2 =>
    cases scanned
    exact kept
  case case4 n _ _ ih =>
    exact ih (fun c member => plain c (by simp [List.mem_cons.mp member])) (kept.addUnit n) scanned
  case case7 meant _ ih =>
    obtain ⟨notHigh, notLow⟩ := not_isSurrogate_of_meant? meant
    exact ih (fun c member => plain c (by simp [member])) (kept.push_whole notHigh notLow) scanned
  case case10 c _ _ _ _ ih =>
    have whole := plain c List.mem_cons_self
    have notHigh : ¬ c.IsHigh := fun high => whole ⟨high.1, high.2.trans (by decide)⟩
    have notLow : ¬ c.IsLow := fun low => whole ⟨le_trans (by decide) low.1, low.2⟩
    exact ih (fun d member => plain d (List.mem_cons_of_mem c member)) (kept.push_whole notHigh notLow) scanned

theorem Kept.joined {pieces : List Piece} (kept : Kept pieces) : Text.Joined (pieces.map Piece.point).reverse := by
  rw [Text.Joined, List.isChain_reverse, List.isChain_map]
  exact kept.pairs

/-- Every string that is read from code points without surrogates can be written. -/
theorem joined_of_scanString {opening position : Nat} {t : Text} {pieces : List Piece} {behind : Nat}
    (plain : ∀ c ∈ t, ¬ c.IsSurrogate) (scanned : scanString opening [] position t = .ok (pieces, behind)) :
    Text.Joined (pieces.map Piece.point).reverse :=
  (kept_of_scanString plain .nil scanned).joined

/-! ## Nothing but ASCII -/

theorem isAscii_unit {n : Nat} (small : n < 0x10000) : ∀ c ∈ Escapes.unit n, c.IsAscii := by
  have digit (k : Nat) := isAscii_hexDigit (Nat.mod_lt k (by decide : 0 < 16))
  have first := isAscii_hexDigit (by omega : n / 16 / 16 / 16 < 16)
  have mark : ∀ c ∈ lit "\\u", c.IsAscii := by decide
  rw [Escapes.unit, hexadecimal_four small]
  exact List.forall_mem_append.mpr ⟨mark, by simp [first, digit]⟩

theorem isAscii_point (c : CodePoint) : ∀ d ∈ Escapes.point c, d.IsAscii := by
  have valid := c.val_lt
  unfold Escapes.point
  cases short : Escapes.letter? c with
  | some letter =>
    obtain ⟨-, ascii, -⟩ := of_letter? short
    have mark : (CodePoint.ofChar '\\').IsAscii := by decide
    simp [ascii, mark]
  | none =>
    dsimp only
    split
    · next printable =>
      rw [List.forall_mem_singleton, CodePoint.IsAscii]
      omega
    split
    · next small => exact isAscii_unit small
    · exact List.forall_mem_append.mpr ⟨isAscii_unit (by omega), isAscii_unit (by omega)⟩

theorem isAscii_quote (t : Text) : ∀ c ∈ Escapes.quote t, c.IsAscii := by
  have mark : ∀ c ∈ lit "\"", c.IsAscii := by decide
  refine List.forall_mem_append.mpr ⟨List.forall_mem_append.mpr ⟨mark, ?_⟩, mark⟩
  intro c member
  obtain ⟨d, -, escaped⟩ := List.mem_flatMap.mp member
  exact isAscii_point d c escaped

end JsonToken

end CallByValue
