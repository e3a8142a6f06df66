import CallByValue.Programs
import CallByValue.Proofs.JsonLexemes

/-!
# What keeps a program from being read

Whatever is wrong with a text or with the bytes of a file is blamed on the
program, with one exception: an integer of more digits than may be converted is
refused by the host. That takes a run of so many digits in the text, and since
bytes that are no digits never decode to digits, a run of so many in the file.
-/

namespace CallByValue

/-! ## Runs -/

/-- Somewhere in a list so many items with a property stand together. -/
def HoldsRun {α : Type} (p : α → Prop) (items : List α) (count : Nat) : Prop :=
  ∃ run, run <:+: items ∧ (∀ item ∈ run, p item) ∧ run.length = count

/-- A list written as another one: one item each for an item, which is marked if the new one is, or some items
    for an item that is not marked. -/
inductive Renders {α β : Type} (p : α → Prop) (q : β → Prop) : List α → List β → Prop
  | nil : Renders p q [] []
  | one {a b as bs} (marked : q b → p a) (rest : Renders p q as bs) : Renders p q (a :: as) (b :: bs)
  | other (chunk) {b as bs} (plain : ¬ q b) (rest : Renders p q as bs) : Renders p q (chunk ++ as) (b :: bs)

section
variable {α β : Type} {p : α → Prop} {q : β → Prop}

theorem HoldsRun.within {items more : List α} {count : Nat} (holds : HoldsRun p items count)
    (inside : items <:+: more) : HoldsRun p more count := by
  obtain ⟨run, within, all, length⟩ := holds
  exact ⟨run, within.trans inside, all, length⟩

/-- Marked items at the front of the new list stand for as many marked ones at the front of the old one. -/
theorem Renders.front {as : List α} {bs run : List β} (renders : Renders p q as bs) (front : run <+: bs)
    (all : ∀ b ∈ run, q b) : ∃ old, old <+: as ∧ (∀ a ∈ old, p a) ∧ old.length = run.length := by
  induction renders generalizing run with
  | nil =>
    rw [List.prefix_nil.mp front]
    exact ⟨[], List.prefix_rfl, List.forall_mem_nil p, rfl⟩
  | @one a b as bs marked _ ih =>
    rcases List.prefix_cons_iff.mp front with rfl | ⟨tail, rfl, further⟩
    · exact ⟨[], List.nil_prefix, List.forall_mem_nil p, rfl⟩
    · obtain ⟨first, others⟩ := List.forall_mem_cons.mp all
      obtain ⟨old, inside, olds, length⟩ := ih further others
      refine ⟨a :: old, List.prefix_cons_inj a |>.mpr inside, List.forall_mem_cons.mpr ⟨marked first, olds⟩, ?_⟩
      rw [List.length_cons, List.length_cons, length]
  | other chunk plain _ _ =>
    rcases List.prefix_cons_iff.mp front with rfl | ⟨tail, rfl, _⟩
    · exact ⟨[], List.nil_prefix, List.forall_mem_nil p, rfl⟩
    · exact absurd (all _ List.mem_cons_self) plain

/-- A run in the new list was one in the old list. -/
theorem Renders.holdsRun {as : List α} {bs : List β} {count : Nat} (renders : Renders p q as bs)
    (holds : HoldsRun q bs count) : HoldsRun p as count := by
  obtain ⟨run, inside, all, rfl⟩ := holds
  have here : ∀ {as bs}, Renders p q as bs → run <+: bs → HoldsRun p as run.length := by
    intro as bs renders front
    obtain ⟨old, within, olds, length⟩ := renders.front front all
    exact ⟨old, within.isInfix, olds, length⟩
  induction renders with
  | nil => exact here .nil (List.infix_nil.mp inside ▸ List.prefix_rfl)
  | one marked rest ih =>
    rcases List.infix_cons_iff.mp inside with front | further
    · exact here (.one marked rest) front
    · exact (ih further).within (List.suffix_cons _ _).isInfix
  | other chunk plain rest ih =>
    rcases List.infix_cons_iff.mp inside with front | further
    · exact here (.other chunk plain rest) front
    · exact (ih further).within (List.suffix_append chunk _).isInfix

end

/-! ## Cutting and reading -/

namespace JsonToken
open Numeral

theorem scanWhole_leads (t : Text) : scanWhole t <+: t := by
  have front : digits t <+: t := List.takeWhile_prefix _
  unfold scanWhole
  split
  · exact List.nil_prefix
  · next d ds split =>
    rw [split] at front
    by_cases zero : d = CodePoint.ofChar '0'
    · rw [if_pos zero]
      exact (List.prefix_append [d] ds).trans front
    · rwa [if_neg zero]

theorem holdsRun_of_scan? {t : Text} {n : Numeral} {length : Nat} (scanned : scan? t = some (n, length)) :
    HoldsRun CodePoint.IsDigit t n.whole.length := by
  obtain ⟨unsigned, behind, same⟩ := whole_of_scan? scanned
  rw [same]
  exact ⟨_, (scanWhole_leads unsigned).isInfix.trans behind.isInfix, digits_scanWhole unsigned, rfl⟩

/-- Only a numeral of more digits than may be read stops the cutting as one. -/
theorem holdsRun_of_lexeme {position : Nat} {c : CodePoint} {rest : Text} {count : Nat}
    (stopped : lexeme position c rest = .stop (.longNumeral count)) :
    digitLimit < count ∧ HoldsRun CodePoint.IsDigit (c :: rest) count := by
  unfold lexeme at stopped
  split at stopped
  · cases stopped
  split at stopped
  · split at stopped <;> cases stopped
  split at stopped
  · cases stopped
  split at stopped
  · cases stopped
  split at stopped
  · next n length scanned =>
    split at stopped
    · next long =>
      cases stopped
      obtain ⟨_, many⟩ := Bool.and_eq_true_iff.mp long
      exact ⟨of_decide_eq_true many, holdsRun_of_scan? scanned⟩
    · cases stopped
  · cases stopped

theorem holdsRun_of_scan {t : Text} {seen : List Located} {position skip count : Nat}
    (stopped : (scan seen position skip t).ending = .longNumeral count) :
    digitLimit < count ∧ HoldsRun CodePoint.IsDigit t count := by
  induction t generalizing seen position skip with
  | nil => cases stopped
  | cons c rest ih =>
    have inside : rest <:+: c :: rest := (List.suffix_cons c rest).isInfix
    unfold scan at stopped
    split at stopped
    · exact (ih stopped).imp id (·.within inside)
    · split at stopped
      · exact (ih stopped).imp id (·.within inside)
      · exact (ih stopped).imp id (·.within inside)
      · next lexed =>
        obtain rfl : _ = JsonEnd.longNumeral count := stopped
        exact holdsRun_of_lexeme lexed

end JsonToken

namespace JsonReader

theorem missing_ne_numeralTooLong (state : State) (position count : Nat) :
    state.missing position ≠ .numeralTooLong count := by
  unfold State.missing
  split <;> nofun

theorem deeper_ne_numeralTooLong (state opened : State) (limit count : Nat) :
    state.deeper limit opened ≠ .error (.numeralTooLong count) := by
  unfold State.deeper
  split <;> nofun

theorem next_ne_numeralTooLong (state : State) (limit position : Nat) (token : JsonToken) (count : Nat) :
    state.next limit position token ≠ .error (.numeralTooLong count) := by
  intro refused
  unfold State.next at refused
  split at refused <;> first
    | cases refused
    | exact deeper_ne_numeralTooLong _ _ _ _ refused
    | exact missing_ne_numeralTooLong _ _ _ (Except.error.inj refused)

theorem run_ne_numeralTooLong (state : State) (limit : Nat) (tokens : List JsonToken.Located) (count : Nat) :
    state.run limit tokens ≠ .error (.numeralTooLong count) := by
  induction tokens generalizing state with
  | nil => nofun
  | cons located rest ih =>
    rw [State.run]
    cases step : state.next limit located.position located.token with
    | ok after => exact ih after
    | error e =>
      intro refused
      rw [Except.error.inj refused] at step
      exact next_ne_numeralTooLong _ _ _ _ _ step

/-- The reader refuses a numeral only where one stopped the cutting. -/
theorem ending_of_conclude {state : State} {ending : JsonEnd} {position count : Nat}
    (refused : state.conclude ending position = .error (.numeralTooLong count)) : ending = .longNumeral count := by
  unfold State.conclude at refused
  split at refused
  case h_4 => cases refused; rfl
  case h_5 => exact absurd (Except.error.inj refused) (missing_ne_numeralTooLong _ _ _)
  all_goals cases refused

end JsonReader

theorem holdsRun_of_read {limit : Nat} {t : Text} {count : Nat}
    (refused : Json.read limit t = .error (.numeralTooLong count)) :
    digitLimit < count ∧ HoldsRun CodePoint.IsDigit t count := by
  unfold Json.read at refused
  split at refused
  · cases refused
  · dsimp only at refused
    split at refused
    · exact JsonToken.holdsRun_of_scan (JsonReader.ending_of_conclude refused)
    · next e ran =>
      rw [Except.error.inj refused] at ran
      exact absurd ran (JsonReader.run_ne_numeralTooLong _ _ _ _)

/-- A text that is not read is to blame itself, or it holds a numeral of more digits than may be read. -/
theorem malformed_or_holdsRun_of_ofText {frames : Nat} {t : Text} {e : LoadError}
    (refused : Expr.ofText frames t = .error e) : e.isMalformed = true ∨
      ∃ count, e = .numeralTooLong count ∧ digitLimit < count ∧ HoldsRun CodePoint.IsDigit t count := by
  unfold Expr.ofText at refused
  split at refused
  · cases refused
    exact .inl rfl
  · next count read =>
    cases refused
    exact .inr ⟨count, rfl, holdsRun_of_read read⟩
  · cases refused
    exact .inl rfl
  · split at refused
    · cases refused
      exact .inl rfl
    · split at refused
      · cases refused
        exact .inl rfl
      · cases refused

/-! ## Files -/

theorem unifyLineEndsFrom_eq (done : Text) (afterReturn : Bool) (t : Text) :
    ∃ out, unifyLineEndsFrom done afterReturn t = done.reverse ++ out ∧
      (Renders CodePoint.IsDigit CodePoint.IsDigit t out ∨ afterReturn = true ∧
        ∃ rest, t = CodePoint.ofChar '\n' :: rest ∧ Renders CodePoint.IsDigit CodePoint.IsDigit rest out) := by
  have feed : ¬ (CodePoint.ofChar '\n').IsDigit := by decide
  induction t generalizing done afterReturn with
  | nil => exact ⟨[], by simp [unifyLineEndsFrom], .inl .nil⟩
  | cons c rest ih =>
    rw [unifyLineEndsFrom]
    split
    · obtain ⟨out, written, renders⟩ := ih (CodePoint.ofChar '\n' :: done) true
      refine ⟨CodePoint.ofChar '\n' :: out, by simp [written], .inl ?_⟩
      rcases renders with renders | ⟨-, behind, rfl, renders⟩
      · exact .other [c] feed renders
      · exact .other [c, CodePoint.ofChar '\n'] feed renders
    · split
      · -- The line feed of a return and a feed was written with the return.
        next both =>
        obtain ⟨out, written, renders⟩ := ih done false
        obtain renders | ⟨no, -⟩ := renders
        · exact ⟨out, written, .inr ⟨both.2, rest, by rw [both.1], renders⟩⟩
        · cases no
      · obtain ⟨out, written, renders⟩ := ih (c :: done) false
        obtain renders | ⟨no, -⟩ := renders
        · exact ⟨c :: out, by simp [written], .inl (.one id renders)⟩
        · cases no

/-- Line ends that become one keep digits apart. -/
theorem renders_unifyLineEnds (t : Text) : Renders CodePoint.IsDigit CodePoint.IsDigit t (unifyLineEnds t) := by
  obtain ⟨out, written, renders⟩ := unifyLineEndsFrom_eq [] false t
  obtain renders | ⟨no, -⟩ := renders
  · rw [unifyLineEnds, written]
    exact renders
  · cases no

namespace Utf8

/-- One of the bytes that stand for digits. -/
def IsDigitByte (byte : UInt8) : Prop := 48 ≤ byte.toNat ∧ byte.toNat ≤ 57

/-- What is announced so far leads past ASCII, whatever bytes follow. -/
structure Lead.Beyond (lead : Lead) : Prop where
  low : 0x80 ≤ lead.low
  high : lead.high ≤ 0xBF
  large : 2 ≤ lead.bits ∨ 1 < lead.owed ∧ 2 ≤ lead.bits * 64 + lead.low % 64

theorem lead?_cases {byte : UInt8} {lead : Lead} (announced : lead? byte = some lead) :
    lead.owed = 0 ∧ lead.bits = byte.toNat ∨ lead.owed ≠ 0 ∧ lead.Beyond := by
  unfold lead? at announced
  dsimp only at announced
  split_ifs at announced <;> obtain rfl := Option.some.inj announced
  case pos => exact .inl ⟨rfl, rfl⟩
  all_goals exact .inr ⟨by simp, by dsimp only; omega, by dsimp only; omega, by dsimp only; omega⟩

/-- A byte that may follow leads no less far. -/
theorem Lead.Beyond.two_le {lead : Lead} (beyond : lead.Beyond) {byte : Nat} (low : lead.low ≤ byte)
    (high : byte ≤ lead.high) : 2 ≤ lead.bits * 64 + byte % 64 := by
  obtain ⟨least, most, large⟩ := beyond
  omega

theorem isDigit_ofNat {n : Nat} : (CodePoint.ofNat n).IsDigit ↔ 48 ≤ n ∧ n ≤ 57 := by
  unfold CodePoint.ofNat CodePoint.IsDigit
  split
  · rfl
  · dsimp only
    omega

/-- Bytes decode to digits only where they stand for digits. Behind the beginning of a character the bytes
    already taken count as well. -/
theorem decodeFrom_eq {done : Text} {pending : Option Partial} {position : Nat} {bytes : List UInt8} {t : Text}
    (decoded : decodeFrom done pending position bytes = .ok t) (beyond : ∀ p ∈ pending, p.lead.Beyond)
    (taken : List UInt8) (fresh : pending = none → taken = []) :
    ∃ out, t = done.reverse ++ out ∧ Renders IsDigitByte CodePoint.IsDigit (taken ++ bytes) out := by
  -- On the bytes. What is pending leads past ASCII, so that whatever it ends in is no digit.
  induction bytes generalizing done pending position taken with
  | nil =>
    cases pending with
    | none =>
      obtain rfl := fresh rfl
      cases decoded
      exact ⟨[], (List.append_nil _).symm, .nil⟩
    | some p => cases decoded
  | cons byte bytes ih =>
    cases pending with
    | none =>
      obtain rfl := fresh rfl
      rw [decodeFrom] at decoded
      split at decoded
      · cases decoded
      · next lead announced =>
        rcases lead?_cases announced with ⟨single, bits⟩ | ⟨several, further⟩
        · rw [if_pos single] at decoded
          obtain ⟨out, written, renders⟩ := ih decoded nofun [] fun _ => rfl
          refine ⟨CodePoint.ofNat lead.bits :: out, by simp [written], .one (fun digit => ?_) renders⟩
          rwa [isDigit_ofNat, bits] at digit
        · rw [if_neg several] at decoded
          exact ih decoded (fun p member => Option.some.inj member ▸ further) [byte] nofun
    | some p =>
      have far := beyond p rfl
      rw [decodeFrom] at decoded
      dsimp only at decoded
      rw [List.append_cons]
      split_ifs at decoded with range last
      · obtain ⟨out, written, renders⟩ := ih decoded nofun [] fun _ => rfl
        refine ⟨CodePoint.ofNat (p.lead.bits * 64 + byte.toNat % 64) :: out, by simp [written],
          .other _ ?_ renders⟩
        have large := far.large
        rw [isDigit_ofNat]
        omega
      · have further : Lead.Beyond ⟨p.lead.bits * 64 + byte.toNat % 64, p.lead.owed - 1, 0x80, 0xBF⟩ :=
          ⟨le_rfl, le_rfl, .inl (far.two_le range.1 range.2)⟩
        exact ih decoded (fun p member => Option.some.inj member ▸ further) (taken ++ [byte]) nofun

theorem renders_decode {bytes : List UInt8} {t : Text} (decoded : decode bytes = .ok t) :
    Renders IsDigitByte CodePoint.IsDigit bytes t := by
  obtain ⟨out, rfl, renders⟩ := decodeFrom_eq decoded nofun [] fun _ => rfl
  exact renders

end Utf8

/-- A file that is not read is to blame itself, or its bytes hold a run of more digits than may be read. -/
theorem malformed_or_holdsRun_of_ofBytes {frames : Nat} {bytes : List UInt8} {e : LoadError}
    (refused : Expr.ofBytes frames bytes = .error e) : e.isMalformed = true ∨
      ∃ count, e = .numeralTooLong count ∧ digitLimit < count ∧ HoldsRun Utf8.IsDigitByte bytes count := by
  unfold Expr.ofBytes at refused
  split at refused
  · cases refused
    exact .inl rfl
  · next t decoded =>
    refine (malformed_or_holdsRun_of_ofText refused).imp_right ?_
    rintro ⟨count, same, many, run⟩
    exact ⟨count, same, many, (Utf8.renders_decode decoded).holdsRun ((renders_unifyLineEnds t).holdsRun run)⟩

/-! ## The exception -/

open JsonToken in
/-- An integer of more digits than may be read keeps the program from being read, whatever stands behind it. -/
theorem ofText_longNumeral {n : Numeral} (standard : n.Standard) (long : n.isTooLong = true) {frames : Nat}
    (room : 0 < frames) {behind : Text} (ends : Numeral.Ends behind) :
    Expr.ofText frames (lit "[\"lit\"," ++ (n.text ++ behind)) = .error (.numeralTooLong n.whole.length) := by
  have cut : JsonToken.ofText (lit "[\"lit\"," ++ (n.text ++ behind)) =
      ⟨[⟨.leftBracket, 0⟩, ⟨.string (lit "lit"), 1⟩, ⟨.comma, 6⟩], .longNumeral n.whole.length, 7⟩ := by
    obtain ⟨c, more, split, lexed⟩ := lexeme_numeral standard ends
    have front : lit "[\"lit\"," ++ (n.text ++ behind) =
        lit "[" ++ (Escapes.quote (lit "lit") ++ (lit "," ++ (n.text ++ behind))) := rfl
    rw [front, JsonToken.ofText, (lexes_leftBracket _).scan, (lexes_string (by decide) _).scan,
      (lexes_comma _).scan, split, List.cons_append, scan, lexed, if_pos long]
    rfl
  obtain ⟨more, rfl⟩ := Nat.exists_eq_add_one.mpr room
  have read : Json.read (more + 1) (lit "[\"lit\"," ++ (n.text ++ behind)) =
      .error (.numeralTooLong n.whole.length) := by
    rw [Json.read, cut]
    rfl
  rw [Expr.ofText, read]

/-- A one with so many zeros behind it. -/
def tenPower (zeros : Nat) : JsonToken.Numeral :=
  ⟨false, CodePoint.ofChar '1' :: List.replicate zeros (CodePoint.ofChar '0'), [], false, []⟩

theorem length_tenPower (zeros : Nat) : (tenPower zeros).whole.length = zeros + 1 := by
  rw [tenPower, List.length_cons, List.length_replicate]

theorem standard_tenPower (zeros : Nat) : (tenPower zeros).Standard where
  whole c member := by
    rcases List.mem_cons.mp member with rfl | zero
    · decide
    · rw [List.eq_of_mem_replicate zero]
      decide
  nonempty := List.cons_ne_nil _ _
  leading := .inr (by rw [tenPower, List.head?_cons]; decide)
  fraction := nofun
  exponent := nofun
  signed _ := rfl

theorem isTooLong_tenPower {zeros : Nat} (many : digitLimit ≤ zeros) : (tenPower zeros).isTooLong = true := by
  have long : digitLimit < (tenPower zeros).whole.length := by
    rw [length_tenPower]
    exact Nat.lt_succ_of_le many
  exact Bool.and_eq_true_iff.mpr ⟨rfl, decide_eq_true long⟩

theorem ends_rightBracket : JsonToken.Numeral.Ends (lit "]") := by
  intro c front
  cases front
  decide

/-- Whatever the frames, a text or a file holds an expression or is itself to blame, but for a numeral of more digits
    than may be read. No other refusal takes one, and an integer that is one is refused. -/
theorem reading_tight_up_to_numerals (frames : Nat) :
    (∀ t e, Expr.ofText frames t = .error e → e.isMalformed = true ∨
      ∃ count, e = .numeralTooLong count ∧ digitLimit < count ∧ HoldsRun CodePoint.IsDigit t count) ∧
    (∀ bytes e, Expr.ofBytes frames bytes = .error e → e.isMalformed = true ∨
      ∃ count, e = .numeralTooLong count ∧ digitLimit < count ∧ HoldsRun Utf8.IsDigitByte bytes count) ∧
    ∀ n : JsonToken.Numeral, 0 < frames → n.Standard → n.isTooLong = true →
      ∀ behind, JsonToken.Numeral.Ends behind →
        Expr.ofText frames (lit "[\"lit\"," ++ (n.text ++ behind)) = .error (.numeralTooLong n.whole.length) :=
  ⟨fun _ _ => malformed_or_holdsRun_of_ofText, fun _ _ => malformed_or_holdsRun_of_ofBytes,
    fun _ room standard long _ ends => ofText_longNumeral standard long room ends⟩

/-- An open bracket, a byte that begins no character, and ten to the power of 4300. -/
theorem reading_tight_up_to_numerals_samples :
    (∃ e, Expr.ofText standardFrames (lit "[") = .error e ∧ (e.isMalformed = true ∨
      ∃ count, e = .numeralTooLong count ∧ digitLimit < count ∧ HoldsRun CodePoint.IsDigit (lit "[") count)) ∧
    (∃ e, Expr.ofBytes standardFrames [0xFF] = .error e ∧ (e.isMalformed = true ∨
      ∃ count, e = .numeralTooLong count ∧ digitLimit < count ∧ HoldsRun Utf8.IsDigitByte [0xFF] count)) ∧
    0 < standardFrames ∧ (tenPower digitLimit).Standard ∧ (tenPower digitLimit).isTooLong = true ∧
    JsonToken.Numeral.Ends (lit "]") ∧
    Expr.ofText standardFrames (lit "[\"lit\"," ++ ((tenPower digitLimit).text ++ lit "]")) =
      .error (.numeralTooLong (tenPower digitLimit).whole.length) := by
  obtain ⟨texts, files, numerals⟩ := reading_tight_up_to_numerals standardFrames
  exact ⟨⟨_, rfl, texts _ _ rfl⟩, ⟨_, rfl, files _ _ rfl⟩, by decide, standard_tenPower _,
    isTooLong_tenPower le_rfl, ends_rightBracket,
    numerals _ (by decide) (standard_tenPower _) (isTooLong_tenPower le_rfl) _ ends_rightBracket⟩

/-- Ten to the power of 4300 is refused, and its program is not blamed. -/
theorem reading_not_tight :
    Expr.ofText standardFrames (lit "[\"lit\"," ++ ((tenPower digitLimit).text ++ lit "]")) =
      .error (.numeralTooLong (digitLimit + 1)) ∧
    (LoadError.numeralTooLong (digitLimit + 1)).isMalformed = false := by
  rw [ofText_longNumeral (standard_tenPower _) (isTooLong_tenPower le_rfl) (by decide) ends_rightBracket,
    length_tenPower]
  exact ⟨rfl, rfl⟩

end CallByValue
