import CallByValue.Proofs.Encodability
import CallByValue.Proofs.LineBreaks
import CallByValue.Proofs.RoundTrip

/-!
# Line ends do not matter

A program is what its tokens are, wherever they stand. So a text may get other
line ends, and be written to a file and read with a line feed for each of them:
it is the same program, or none.
-/

namespace CallByValue

/-! ## Reading without positions -/

namespace JsonReader

/-- The state after some tokens, if none of them is refused. -/
def State.takes (limit : Nat) (state : State) : List JsonToken → Option State
  | [] => some state
  | token :: rest => (state.next limit 0 token).toOption.bind fun after => after.takes limit rest

/-- Where a token stands matters only for what is said of it. -/
theorem next_toOption (state : State) (limit position other : Nat) (token : JsonToken) :
    (state.next limit position token).toOption = (state.next limit other token).toOption := by
  unfold State.next
  split <;> rfl

theorem run_toOption (state : State) (limit : Nat) (tokens : List JsonToken.Located) :
    (state.run limit tokens).toOption = state.takes limit (tokens.map (·.token)) := by
  induction tokens generalizing state with
  | nil => rfl
  | cons located rest ih =>
    rw [State.run, List.map_cons, State.takes, next_toOption state limit 0 located.position]
    cases state.next limit located.position located.token with
    | ok after => exact ih after
    | error e => rfl

theorem conclude_eq_ok_iff {state : State} {ending : JsonEnd} {position : Nat} {datum : Json} :
    state.conclude ending position = .ok datum ↔ ending = .finish ∧ state = ⟨[], .separator datum⟩ := by
  obtain ⟨stack, awaiting⟩ := state
  constructor
  · intro concluded
    unfold State.conclude at concluded
    split at concluded <;> simp_all
  · rintro ⟨rfl, same⟩
    cases same
    rfl

end JsonReader

open JsonToken JsonReader

theorem toOption_eq_some {ε α : Type} {result : Except ε α} {a : α} (found : result.toOption = some a) :
    result = .ok a := by
  cases result <;> cases found
  rfl

/-- A text is read from its tokens, wherever they stand. -/
theorem read_eq_ok_iff {limit : Nat} {t : Text} {datum : Json} :
    Json.read limit t = .ok datum ↔ t.head? ≠ some (CodePoint.ofNat 0xFEFF) ∧
      ∃ tokens, CutsInto t tokens ∧ start.takes limit tokens = some ⟨[], .separator datum⟩ := by
  unfold Json.read
  by_cases marked : t.head? = some (CodePoint.ofNat 0xFEFF)
  · simp [marked]
  rw [if_neg marked]
  dsimp only
  constructor
  · intro read
    split at read
    · next state ran =>
      obtain ⟨finish, rfl⟩ := conclude_eq_ok_iff.mp read
      refine ⟨marked, _, cutsInto_iff.mpr ⟨finish, rfl⟩, ?_⟩
      rw [← run_toOption, ran]
      rfl
    · cases read
  · rintro ⟨-, tokens, cuts, taken⟩
    obtain ⟨finish, rfl⟩ := cutsInto_iff.mp cuts
    rw [← run_toOption] at taken
    rw [toOption_eq_some taken]
    exact conclude_eq_ok_iff.mpr ⟨finish, rfl⟩

/-! ## Texts with other line ends -/

/-- Texts that differ in their line breaks only: where one has some, the other has some too. -/
inductive SameLines : Text → Text → Prop
  | nil : SameLines [] []
  | point {s t} (c : CodePoint) (rest : SameLines s t) : SameLines (c :: s) (c :: t)
  | breaks {s t} (b c : CodePoint) (more others : Text) (left : ∀ d ∈ b :: more, d.IsLineBreak)
      (right : ∀ d ∈ c :: others, d.IsLineBreak) (rest : SameLines s t) :
      SameLines (b :: (more ++ s)) (c :: (others ++ t))

theorem cutsInto_nil_iff {tokens : List JsonToken} : CutsInto [] tokens ↔ tokens = [] := by
  constructor
  · intro cuts
    generalize whole : ([] : Text) = t at cuts
    cases cuts with
    | nil => rfl
    | blank => cases whole
    | token lexes =>
      obtain ⟨c, more, rfl, -⟩ := lexes
      cases whole
  · rintro rfl
    exact .nil

theorem cutsInto_lineBreaks {breaks t : Text} (all : ∀ b ∈ breaks, b.IsLineBreak) {tokens : List JsonToken} :
    CutsInto (breaks ++ t) tokens ↔ CutsInto t tokens := by
  induction breaks with
  | nil => rfl
  | cons b breaks ih =>
    obtain ⟨first, others⟩ := List.forall_mem_cons.mp all
    have split := @cutsInto_append_lineBreak b [] (breaks ++ t) first tokens
    rw [List.nil_append] at split
    rw [List.cons_append, split, ← ih others]
    simp [cutsInto_nil_iff]

theorem SameLines.cutsInto_iff {s t : Text} (same : SameLines s t) (front : Text) {tokens : List JsonToken} :
    CutsInto (front ++ s) tokens ↔ CutsInto (front ++ t) tokens := by
  induction same generalizing front tokens with
  | nil => rfl
  | point c _ ih => simpa using ih (front ++ [c])
  | breaks b c more others left right _ ih =>
    obtain ⟨first, further⟩ := List.forall_mem_cons.mp left
    obtain ⟨second, behind⟩ := List.forall_mem_cons.mp right
    rw [cutsInto_append_lineBreak first, cutsInto_append_lineBreak second]
    simp only [cutsInto_lineBreaks further, cutsInto_lineBreaks behind]
    exact exists_congr fun before => exists_congr fun after => and_congr_right' (and_congr_right' (ih []))

theorem SameLines.head? {s t : Text} (same : SameLines s t) {c : CodePoint} (other : ¬ c.IsLineBreak) :
    s.head? = some c ↔ t.head? = some c := by
  cases same with
  | nil => rfl
  | point d _ => rfl
  | breaks b d more others left right _ =>
    have first : b ≠ c := fun same => other (same ▸ left b List.mem_cons_self)
    have second : d ≠ c := fun same => other (same ▸ right d List.mem_cons_self)
    simp [first, second]

theorem SameLines.read {s t : Text} (same : SameLines s t) {limit : Nat} {datum : Json} :
    Json.read limit s = .ok datum ↔ Json.read limit t = .ok datum := by
  have mark : ¬ (CodePoint.ofNat 0xFEFF).IsLineBreak := by
    rintro (mark | mark) <;> revert mark <;> decide
  have cuts {tokens : List JsonToken} := @SameLines.cutsInto_iff s t same [] tokens
  simp only [List.nil_append] at cuts
  rw [read_eq_ok_iff, read_eq_ok_iff]
  simp only [ne_eq, same.head? mark, cuts]

theorem ofText_eq_ok_iff {frames : Nat} {t : Text} {e : Expr} :
    Expr.ofText frames t = .ok e ↔
      ∃ datum, Json.read frames t = .ok datum ∧ Wire.decode datum = .ok e ∧ e.depth ≤ levels frames := by
  refine ⟨Expr.ofText_eq_ok, ?_⟩
  rintro ⟨datum, read, decoded, shallow⟩
  simp only [Expr.ofText, read, decoded, if_neg (not_lt.mpr shallow)]

/-- Texts that differ in their line breaks only are the same program, or none. -/
theorem SameLines.ofText {s t : Text} (same : SameLines s t) (frames : Nat) (e : Expr) :
    Expr.ofText frames s = .ok e ↔ Expr.ofText frames t = .ok e := by
  simp only [ofText_eq_ok_iff, same.read]

/-! ## Rewriting line ends -/

theorem isLineBreak_return : (CodePoint.ofChar '\r').IsLineBreak := .inl rfl

theorem isLineBreak_feed : (CodePoint.ofChar '\n').IsLineBreak := .inr rfl

/-- Behind a carriage return the line feed is written already. -/
theorem unifyLineEndsFrom_sameLines (done : Text) (afterReturn : Bool) (t : Text) :
    ∃ out, unifyLineEndsFrom done afterReturn t = done.reverse ++ out ∧
      if afterReturn then SameLines (CodePoint.ofChar '\r' :: t) (CodePoint.ofChar '\n' :: out)
      else SameLines t out := by
  have one {s out : Text} (same : SameLines s out) :
      SameLines (CodePoint.ofChar '\r' :: s) (CodePoint.ofChar '\n' :: out) :=
    .breaks _ _ [] [] (List.forall_mem_singleton.mpr isLineBreak_return)
      (List.forall_mem_singleton.mpr isLineBreak_feed) same
  induction t generalizing done afterReturn with
  | nil =>
    refine ⟨[], by simp [unifyLineEndsFrom], ?_⟩
    split
    · exact one .nil
    · exact .nil
  | cons c rest ih =>
    rw [unifyLineEndsFrom]
    split
    · next isReturn =>
      obtain ⟨out, written, same⟩ := ih (CodePoint.ofChar '\n' :: done) true
      refine ⟨CodePoint.ofChar '\n' :: out, by simp [written], ?_⟩
      rw [if_pos rfl, ← isReturn] at same
      split
      · exact one same
      · exact same
    · split
      · next both =>
        obtain ⟨out, written, same⟩ := ih done false
        refine ⟨out, written, ?_⟩
        rw [if_pos both.2, both.1]
        exact .breaks _ _ [_] [] (by simp [isLineBreak_return, isLineBreak_feed]) (by simp [isLineBreak_feed]) same
      · obtain ⟨out, written, same⟩ := ih (c :: done) false
        refine ⟨c :: out, by simp [written], ?_⟩
        split
        · exact one (.point c same)
        · exact .point c same

theorem unifyLineEnds_sameLines (t : Text) : SameLines t (unifyLineEnds t) := by
  obtain ⟨out, written, same⟩ := unifyLineEndsFrom_sameLines [] false t
  rw [unifyLineEnds, written]
  exact same

/-- What a line may end in. -/
inductive LineEnd where
  | lineFeed
  | carriageReturn
  | both

namespace LineEnd

/-- A line end. -/
def text : LineEnd → Text
  | lineFeed => lit "\n"
  | carriageReturn => lit "\r"
  | both => lit "\r\n"

/-- The text with such line ends. -/
def convert (style : LineEnd) (t : Text) : Text :=
  (unifyLineEnds t).flatMap fun c => if c = CodePoint.ofChar '\n' then style.text else [c]

theorem exists_text (style : LineEnd) :
    ∃ b more, style.text = b :: more ∧ ∀ c ∈ b :: more, c.IsLineBreak := by
  have feed := isLineBreak_feed
  have back := isLineBreak_return
  cases style with
  | lineFeed => exact ⟨_, [], rfl, List.forall_mem_singleton.mpr feed⟩
  | carriageReturn => exact ⟨_, [], rfl, List.forall_mem_singleton.mpr back⟩
  | both => exact ⟨_, [_], rfl, List.forall_mem_cons.mpr ⟨back, List.forall_mem_singleton.mpr feed⟩⟩

theorem sameLines_convert (style : LineEnd) (t : Text) : SameLines (unifyLineEnds t) (style.convert t) := by
  obtain ⟨b, more, ends, breaks⟩ := style.exists_text
  unfold convert
  rw [ends]
  induction unifyLineEnds t with
  | nil => exact .nil
  | cons c rest ih =>
    rw [List.flatMap_cons]
    split
    · next feed =>
      rw [feed]
      exact .breaks _ _ [] more (List.forall_mem_singleton.mpr isLineBreak_feed) breaks ih
    · exact .point c ih

theorem ofText_convert (style : LineEnd) (t : Text) (frames : Nat) (e : Expr) :
    Expr.ofText frames (style.convert t) = .ok e ↔ Expr.ofText frames t = .ok e :=
  ((style.sameLines_convert t).ofText frames e).symm.trans ((unifyLineEnds_sameLines t).ofText frames e).symm

end LineEnd

/-! ## Files -/

namespace Utf8

section
variable {done : Text} {first : UInt8} {start taken bits owed low high n position : Nat} {bytes : List UInt8}

/-- A byte that may follow adds six bits to what is pending. -/
theorem decodeFrom_more (least : low ≤ 0x80 + n) (most : 0x80 + n ≤ high) (small : n < 64) :
    decodeFrom done (some ⟨first, start, taken, ⟨bits, owed + 2, low, high⟩⟩) position
        (UInt8.ofNat (0x80 + n) :: bytes) =
      decodeFrom done (some ⟨first, start, taken + 1, ⟨bits * 64 + n, owed + 1, 0x80, 0xBF⟩⟩) (position + 1) bytes := by
  have value := UInt8.toNat_ofNat_of_lt' (by omega : 0x80 + n < 256)
  have rest : (0x80 + n) % 64 = n := by omega
  rw [decodeFrom]
  simp only [value, rest, if_pos (And.intro least most)]
  rfl

theorem decodeFrom_last (least : low ≤ 0x80 + n) (most : 0x80 + n ≤ high) (small : n < 64) :
    decodeFrom done (some ⟨first, start, taken, ⟨bits, 1, low, high⟩⟩) position (UInt8.ofNat (0x80 + n) :: bytes) =
      decodeFrom (CodePoint.ofNat (bits * 64 + n) :: done) none (position + 1) bytes := by
  have value := UInt8.toNat_ofNat_of_lt' (by omega : 0x80 + n < 256)
  have rest : (0x80 + n) % 64 = n := by omega
  rw [decodeFrom]
  simp only [value, rest, if_pos (And.intro least most), if_true]

end

theorem decodeFrom_lead {done : Text} {position n : Nat} {lead : Lead} {bytes : List UInt8}
    (announced : lead? (UInt8.ofNat n) = some lead) (several : lead.owed ≠ 0) :
    decodeFrom done none position (UInt8.ofNat n :: bytes) =
      decodeFrom done (some ⟨UInt8.ofNat n, position, 1, lead⟩) (position + 1) bytes := by
  rw [decodeFrom]
  simp only [announced, if_neg several]

/-- The first byte of a character says how many follow, and where the next one lies. -/
theorem lead?_ofNat (n : Nat) :
    (n < 0x80 → lead? (UInt8.ofNat n) = some ⟨n, 0, 0x80, 0xBF⟩) ∧
    (2 ≤ n → n < 32 → lead? (UInt8.ofNat (0xC0 + n)) = some ⟨n, 1, 0x80, 0xBF⟩) ∧
    (n < 16 → lead? (UInt8.ofNat (0xE0 + n)) =
      some ⟨n, 2, if n = 0 then 0xA0 else 0x80, if n = 0xD then 0x9F else 0xBF⟩) ∧
    (n < 5 → lead? (UInt8.ofNat (0xF0 + n)) =
      some ⟨n, 3, if n = 0 then 0x90 else 0x80, if n = 4 then 0x8F else 0xBF⟩) := by
  refine ⟨fun small => ?_, fun large small => ?_, fun small => ?_, fun small => ?_⟩
  · have value := UInt8.toNat_ofNat_of_lt' (by omega : n < 256)
    simp only [lead?, value, if_pos small]
  · interval_cases n <;> rfl
  · interval_cases n <;> rfl
  · interval_cases n <;> rfl

theorem decodeFrom_encodePoint {c : CodePoint} (plain : ¬ c.IsSurrogate) (done : Text) (position : Nat)
    (bytes : List UInt8) : ∃ behind, decodeFrom done none position (encodePoint c ++ bytes) =
      decodeFrom (c :: done) none behind bytes := by
  have valid := c.val_lt
  have same := CodePoint.ofNat_val c
  unfold CodePoint.IsSurrogate at plain
  simp only [encodePoint, Nat.shiftRight_eq_div_pow, Nat.pow_zero, Nat.div_one]
  generalize c.val = n at *
  split_ifs with one two three
  · refine ⟨position + 1, ?_⟩
    rw [List.cons_append, decodeFrom]
    simp only [(lead?_ofNat n).1 one, if_true, same, List.nil_append]
  · obtain ⟨-, announced, -⟩ := lead?_ofNat (n / 2 ^ 6)
    have whole : n / 2 ^ 6 * 64 + n % 64 = n := by omega
    refine ⟨position + 1 + 1, ?_⟩
    simp only [List.cons_append, List.nil_append]
    rw [decodeFrom_lead (announced (by omega) (by omega)) (by simp), decodeFrom_last (by omega) (by omega) (by omega),
      whole, same]
  · obtain ⟨-, -, announced, -⟩ := lead?_ofNat (n / 2 ^ 12)
    have whole : (n / 2 ^ 12 * 64 + n / 2 ^ 6 % 64) * 64 + n % 64 = n := by omega
    refine ⟨position + 1 + 1 + 1, ?_⟩
    simp only [List.cons_append, List.nil_append]
    rw [decodeFrom_lead (announced (by omega)) (by simp),
      decodeFrom_more (by split_ifs <;> omega) (by split_ifs <;> omega) (by omega),
      decodeFrom_last (by omega) (by omega) (by omega), whole, same]
  · obtain ⟨-, -, -, announced⟩ := lead?_ofNat (n / 2 ^ 18)
    have whole : ((n / 2 ^ 18 * 64 + n / 2 ^ 12 % 64) * 64 + n / 2 ^ 6 % 64) * 64 + n % 64 = n := by omega
    refine ⟨position + 1 + 1 + 1 + 1, ?_⟩
    simp only [List.cons_append, List.nil_append]
    rw [decodeFrom_lead (announced (by omega)) (by simp),
      decodeFrom_more (by split_ifs <;> omega) (by split_ifs <;> omega) (by omega),
      decodeFrom_more (by omega) (by omega) (by omega), decodeFrom_last (by omega) (by omega) (by omega), whole, same]

/-- What is written as bytes is read from them. -/
theorem decode_encode {t : Text} (encodable : t.Encodable) : decode (encode t) = .ok t := by
  have all (done : Text) (position : Nat) : decodeFrom done none position (encode t) = .ok (done.reverse ++ t) := by
    induction t generalizing done position with
    | nil => simp [encode, decodeFrom]
    | cons c t ih =>
      obtain ⟨plain, others⟩ := Text.encodable_cons.mp encodable
      obtain ⟨behind, decoded⟩ := decodeFrom_encodePoint plain done position (encode t)
      rw [encode, List.flatMap_cons]
      refine decoded.trans ?_
      rw [ih others]
      simp
  exact all [] 0

end Utf8

theorem SameLines.encodable {s t : Text} (same : SameLines s t) (encodable : s.Encodable) : t.Encodable := by
  have plain {c : CodePoint} (isBreak : c.IsLineBreak) : ¬ c.IsSurrogate := by
    rcases isBreak with rfl | rfl <;> exact Text.not_isSurrogate_ofChar _
  induction same with
  | nil => exact encodable
  | point c _ ih =>
    obtain ⟨first, rest⟩ := Text.encodable_cons.mp encodable
    exact Text.encodable_cons.mpr ⟨first, ih rest⟩
  | breaks b c more others _ right _ ih =>
    rw [Text.encodable_cons, Text.encodable_append] at encodable
    obtain ⟨first, further⟩ := List.forall_mem_cons.mp right
    exact Text.encodable_cons.mpr ⟨plain first,
      Text.encodable_append.mpr ⟨fun d member => plain (further d member), ih encodable.2.2⟩⟩

/-- A file is the same program as the text that was written to it. -/
theorem ofBytes_encode {t : Text} (encodable : t.Encodable) (frames : Nat) (e : Expr) :
    Expr.ofBytes frames (Utf8.encode t) = .ok e ↔ Expr.ofText frames t = .ok e := by
  rw [Expr.ofBytes, Utf8.decode_encode encodable]
  exact ((unifyLineEnds_sameLines t).ofText frames e).symm

/-- A text without surrogates is the same program, or none, whether it is read at once or written to a file and read
    from there, and whatever its lines end in: between tokens, inside a string or behind a backslash. -/
theorem line_ends_do_not_matter {t : Text} (encodable : t.Encodable) (frames : Nat) (e : Expr) :
    (Expr.ofBytes frames (Utf8.encode t) = .ok e ↔ Expr.ofText frames t = .ok e) ∧
    ∀ style : LineEnd,
      (Expr.ofText frames (style.convert t) = .ok e ↔ Expr.ofText frames t = .ok e) ∧
      (Expr.ofBytes frames (Utf8.encode (style.convert t)) = .ok e ↔ Expr.ofText frames t = .ok e) := by
  refine ⟨ofBytes_encode encodable frames e, fun style => ?_⟩
  have converted := style.ofText_convert t frames e
  have plain : (style.convert t).Encodable :=
    (style.sameLines_convert t).encodable ((unifyLineEnds_sameLines t).encodable encodable)
  exact ⟨converted, (ofBytes_encode plain frames e).trans converted⟩

/-- A variable on two lines. -/
def variableOnLines : Text := lit "[\"var\",\n\"x\"]"

theorem cutsInto_variableOnLines :
    CutsInto variableOnLines [.leftBracket, .string (lit "var"), .comma, .string (lit "x"), .rightBracket] := by
  have text : variableOnLines = lit "[" ++ (Escapes.quote (lit "var") ++ (lit "," ++ (CodePoint.ofChar '\n' ::
      (Escapes.quote (lit "x") ++ (lit "]" ++ []))))) := by decide
  rw [text]
  refine .token (lexes_leftBracket _) (.token (lexes_string (by decide) _) (.token (lexes_comma _) ?_))
  exact .blank rfl (.token (lexes_string (by decide) _) (.token (lexes_rightBracket _) .nil))

theorem ofText_variableOnLines : Expr.ofText standardFrames variableOnLines = .ok (.var (lit "x")) := by
  have read : Json.read standardFrames variableOnLines = .ok (.array [.string (lit "var"), .string (lit "x")]) :=
    read_eq_ok_iff.mpr ⟨by decide, _, cutsInto_variableOnLines, rfl⟩
  exact ofText_eq_ok_iff.mpr ⟨_, read, rfl, by decide⟩

theorem line_ends_do_not_matter_variable :
    Expr.ofText standardFrames variableOnLines = .ok (.var (lit "x")) ∧
      LineEnd.both.convert variableOnLines = lit "[\"var\",\r\n\"x\"]" ∧
      Expr.ofBytes standardFrames (Utf8.encode (lit "[\"var\",\r\n\"x\"]")) = .ok (.var (lit "x")) := by
  have converted : LineEnd.both.convert variableOnLines = lit "[\"var\",\r\n\"x\"]" := by decide
  obtain ⟨-, styles⟩ :=
    @line_ends_do_not_matter variableOnLines (Text.encodable_lit _) standardFrames (.var (lit "x"))
  rw [← converted]
  exact ⟨ofText_variableOnLines, rfl, (styles .both).2.mpr ofText_variableOnLines⟩

end CallByValue
