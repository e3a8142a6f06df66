import CallByValue.Proofs.Occurrences
import CallByValue.Proofs.Soundness
import Mathlib.Tactic.SplitIfs

/-!
# What can be encoded

A stream of bytes takes every code point but surrogates. Literals are escaped where
they are written, so a program can bring surrogates into what is printed only in its
names and glyphs: where these have none, neither has anything that a run prints.
-/

namespace CallByValue

/-! ## Texts -/

namespace Text

/-- No code point of the text is a surrogate. -/
def Encodable (t : Text) : Prop := ∀ c ∈ t, ¬ c.IsSurrogate

variable {s t : Text}

theorem Encodable.of_subset (encodable : Encodable t) (subset : s ⊆ t) : Encodable s :=
  fun c member => encodable c (subset member)

@[simp] theorem encodable_nil : Encodable [] := List.forall_mem_nil _

@[simp] theorem encodable_cons {c : CodePoint} : Encodable (c :: t) ↔ ¬ c.IsSurrogate ∧ Encodable t :=
  List.forall_mem_cons

@[simp] theorem encodable_append : Encodable (s ++ t) ↔ Encodable s ∧ Encodable t := List.forall_mem_append

theorem encodable_flatMap {α : Type} {parts : List α} {f : α → Text} (each : ∀ a ∈ parts, Encodable (f a)) :
    Encodable (parts.flatMap f) := by
  intro c member
  obtain ⟨a, listed, inside⟩ := List.mem_flatMap.mp member
  exact each a listed c inside

theorem encodable_intercalate {separator : Text} {parts : List Text} (between : Encodable separator)
    (each : ∀ part ∈ parts, Encodable part) : Encodable (List.intercalate separator parts) := by
  induction parts with
  | nil => exact encodable_nil
  | cons first rest ih =>
    obtain ⟨here, others⟩ := List.forall_mem_cons.mp each
    cases rest with
    | nil => simpa [List.intercalate] using here
    | cons second rest =>
      have further := ih others
      simp only [List.intercalate, List.intersperse_cons_cons, List.flatten_cons, encodable_append] at further ⊢
      exact ⟨here, between, further⟩

/-- Characters are code points, but no surrogates. -/
@[simp] theorem not_isSurrogate_ofChar (c : Char) : ¬ (CodePoint.ofChar c).IsSurrogate := by
  have valid := c.valid
  unfold UInt32.isValidChar Nat.isValidChar at valid
  change ¬ (0xD800 ≤ c.val.toNat ∧ c.val.toNat ≤ 0xDFFF)
  omega

@[simp] theorem encodable_map_ofChar (cs : List Char) : Encodable (cs.map CodePoint.ofChar) := by
  intro c member
  obtain ⟨character, _, rfl⟩ := List.mem_map.mp member
  exact not_isSurrogate_ofChar character

@[simp] theorem encodable_lit (s : String) : Encodable (lit s) := encodable_map_ofChar _

@[simp] theorem encodable_replicate_ofChar (n : Nat) (c : Char) :
    Encodable (List.replicate n (CodePoint.ofChar c)) := by
  intro d member
  rw [List.eq_of_mem_replicate member]
  exact not_isSurrogate_ofChar c

@[simp] theorem encodable_ofNat (n : Nat) : Encodable (ofNat n) := encodable_map_ofChar _

@[simp] theorem encodable_ofInt (n : Int) : Encodable (ofInt n) := by
  cases n <;> simp [ofInt]

@[simp] theorem encodable_hexadecimal (width n : Nat) : Encodable (hexadecimal width n) := by
  simp [hexadecimal]

end Text

open Text (Encodable encodable_flatMap encodable_intercalate)

namespace DecimalLayout

variable {digits : Text}

theorem encodable_padded (width : Nat) (encodable : Encodable digits) : Encodable (padded width digits) := by
  simp [padded, encodable]

theorem encodable_positional (point : Int) (encodable : Encodable digits) : Encodable (positional digits point) := by
  unfold positional
  split
  · simp [encodable]
  · have whole := encodable_padded point.toNat (encodable.of_subset (List.take_subset point.toNat digits))
    have fraction := encodable_padded 1 (encodable.of_subset (List.drop_subset point.toNat digits))
    simp [whole, fraction]

theorem encodable_scientific (layout : DecimalLayout) (point : Int) (encodable : Encodable digits) :
    Encodable (layout.scientific digits point) := by
  have first := encodable.of_subset (List.take_subset 1 digits)
  have rest := encodable.of_subset (List.tail_suffix digits).subset
  unfold scientific exponentText
  split <;> simp [first, rest]

theorem encodable_text (layout : DecimalLayout) (d : Decimal) : Encodable (layout.text d) := by
  have digits : Encodable ((Text.ofNat d.digits).reverse.dropWhile (· = CodePoint.ofChar '0')).reverse := by
    refine (Text.encodable_ofNat d.digits).of_subset fun c member => ?_
    exact List.mem_reverse.mp ((List.dropWhile_suffix _).subset (List.mem_reverse.mp member))
  unfold text
  dsimp only
  split
  · exact encodable_positional _ digits
  · exact encodable_scientific layout _ digits

end DecimalLayout

theorem Number.encodable_text {words : SpecialWords} (infinity : Encodable words.infinity) (nan : Encodable words.nan)
    (n : Number) : Encodable (n.text words) := by
  have sign (negative : Bool) : Encodable (if negative then lit "-" else []) := by cases negative <;> simp
  cases n with
  | integer n => exact Text.encodable_ofInt n
  | float x =>
    cases x with
    | finite negative m =>
      have magnitude : Encodable m.text := by
        unfold Magnitude.text
        split
        · exact Text.encodable_lit _
        · exact DecimalLayout.encodable_text _ _
      exact Text.encodable_append.mpr ⟨sign negative, magnitude⟩
    | infinite negative => exact Text.encodable_append.mpr ⟨sign negative, infinity⟩
    | nan mark => exact nan

/-- String literals are written in ASCII, whatever they hold. -/
theorem Escapes.encodable_quote (t : Text) : Encodable (quote t) := by
  have point (c : CodePoint) : Encodable (point c) := by
    unfold Escapes.point
    split
    · next letter known =>
      obtain ⟨pair, _, rfl⟩ := Option.map_eq_some_iff.mp known
      simp
    · split
      · next ascii =>
        have below : ¬ c.IsSurrogate := fun surrogate => by
          have := surrogate.1
          omega
        simp [below]
      · split <;> simp [Escapes.unit]
  simp [quote, encodable_flatMap fun c _ => point c]

theorem Quoted.encodable_quote {t : Text} (encodable : Encodable t) : Encodable (quote t) := by
  have point (c : CodePoint) (member : c ∈ t) : Encodable (point (mark t) c) := by
    have sound := encodable c member
    unfold Quoted.point escape
    split_ifs <;> simp [sound]
  simp [quote, encodable_flatMap point]

theorem Atom.encodable_surface (a : Atom) : Encodable a.surface := by
  cases a with
  | boolean b => exact Text.encodable_lit _
  | number n => exact Number.encodable_text (Text.encodable_lit _) (Text.encodable_lit _) n
  | text t => exact Escapes.encodable_quote t

/-! ## Expressions and values -/

namespace Expr

/-- The names and the glyphs in an expression, but not in those inside it. -/
def words : Expr → List Text
  | .var x => [x]
  | .binary g _ _ => [g]
  | .unary g _ => [g]
  | .lambda ps _ => ps
  | .letIn bs _ => bs.map (·.1)
  | .letRec bs _ => bs.map (·.1)
  | _ => []

/-- All names and glyphs in the expression, and in whatever is inside, can be encoded. -/
inductive Encodable : Expr → Prop
  | intro {e} (words : ∀ word ∈ e.words, Text.Encodable word) (children : ∀ part ∈ e.children, Encodable part) :
    Encodable e

theorem Encodable.word {e : Expr} (encodable : e.Encodable) {word : Text} (member : word ∈ e.words) :
    Text.Encodable word := by
  cases encodable with
  | intro words => exact words word member

theorem Encodable.child {e part : Expr} (encodable : e.Encodable) (member : part ∈ e.children) : part.Encodable := by
  cases encodable with
  | intro _ children => exact children part member

theorem encodable_var {x : Text} (encodable : Text.Encodable x) : (var x).Encodable :=
  .intro (List.forall_mem_singleton.mpr encodable) (List.forall_mem_nil _)

theorem encodable_lambda {ps : List Text} {a : Expr} (params : ∀ param ∈ ps, Text.Encodable param)
    (body : a.Encodable) : (lambda ps a).Encodable :=
  .intro params (List.forall_mem_singleton.mpr body)

theorem encodable_apply {f : Expr} {as : List Expr} (callee : f.Encodable) (args : ∀ a ∈ as, a.Encodable) :
    (apply f as).Encodable :=
  .intro (List.forall_mem_nil _) (List.forall_mem_cons.mpr ⟨callee, args⟩)

theorem encodable_combinator : combinator.Encodable := by
  have name (s : String) : (var (lit s)).Encodable := encodable_var (Text.encodable_lit s)
  have single (s : String) : ∀ param ∈ [lit s], Text.Encodable param :=
    List.forall_mem_singleton.mpr (Text.encodable_lit s)
  have again : again.Encodable := by
    refine encodable_apply (encodable_apply (name "x") ?_) ?_ <;> exact List.forall_mem_singleton.mpr (name _)
  have wrapped : wrapped.Encodable :=
    encodable_apply (name "f") (List.forall_mem_singleton.mpr (encodable_lambda (single "v") again))
  have wrapper : wrapper.Encodable := encodable_lambda (single "x") wrapped
  exact encodable_lambda (single "f") (encodable_apply wrapper (List.forall_mem_singleton.mpr wrapper))

theorem Encodable.fixedPoint {functional : Expr} (encodable : functional.Encodable) :
    (fixedPoint functional).Encodable :=
  encodable_apply encodable_combinator (List.forall_mem_singleton.mpr encodable)

theorem encodable_parenthesized {parts : List Text} (each : ∀ part ∈ parts, Text.Encodable part) :
    Text.Encodable (parenthesized parts) := by
  have within : Text.Encodable (Text.spaced parts) := encodable_intercalate (Text.encodable_lit _) each
  simp [parenthesized, within]

theorem texts_eq_map (es : List Expr) : texts es = es.map text := by
  induction es with
  | nil => rfl
  | cons e es ih => rw [texts, ih, List.map_cons]

theorem clauses_eq_map (bs : List (Text × Expr)) : clauses bs = bs.map fun b => parenthesized [b.1, b.2.text] := by
  induction bs with
  | nil => rfl
  | cons b bs ih => rw [clauses, ih, List.map_cons]

theorem encodable_clauses {bs : List (Text × Expr)} (names : ∀ name ∈ bs.map (·.1), Text.Encodable name)
    (bound : ∀ e ∈ bs.map (·.2), Text.Encodable e.text) : Text.Encodable (parenthesized (clauses bs)) := by
  refine encodable_parenthesized fun clause member => ?_
  rw [clauses_eq_map] at member
  obtain ⟨b, listed, rfl⟩ := List.mem_map.mp member
  refine encodable_parenthesized (List.forall_mem_cons.mpr ⟨names _ (List.mem_map_of_mem listed), ?_⟩)
  exact List.forall_mem_singleton.mpr (bound _ (List.mem_map_of_mem listed))

theorem Encodable.text {e : Expr} (encodable : e.Encodable) : Text.Encodable e.text := by
  induction encodable with
  | @intro e words _ ih =>
    cases e with
    | literal a => exact a.encodable_surface
    | var x => exact words x List.mem_cons_self
    | letIn bs a =>
      obtain ⟨bound, body⟩ := List.forall_mem_append.mp ih
      have clauses := encodable_clauses words bound
      have inner : Text.Encodable a.text := body a List.mem_cons_self
      exact encodable_parenthesized (by simp [clauses, inner])
    | letRec bs a =>
      obtain ⟨bound, body⟩ := List.forall_mem_append.mp ih
      have clauses := encodable_clauses words bound
      have inner : Text.Encodable a.text := body a List.mem_cons_self
      exact encodable_parenthesized (by simp [clauses, inner])
    | lambda ps a =>
      have params : Text.Encodable (parenthesized ps) := encodable_parenthesized words
      have body : Text.Encodable a.text := ih a List.mem_cons_self
      exact encodable_parenthesized (by simp [params, body])
    | _ =>
      refine encodable_parenthesized ?_
      simpa [children, Expr.words, texts_eq_map] using And.intro words ih

end Expr

/-- What a value is shown with, and what a call of it brings along, can be encoded. -/
def Value.Encodable : Value → Prop
  | .atom _ => True
  | .closure c => (∀ param ∈ c.params, Text.Encodable param) ∧ c.body.Encodable
  | .quoted e => e.Encodable

theorem Value.Encodable.shown {v : Value} (encodable : v.Encodable) : Text.Encodable v.shown := by
  cases v with
  | atom a => exact a.encodable_surface
  | closure c => simp [Value.shown, Expr.encodable_parenthesized encodable.1]
  | quoted e => simp [Value.shown, Expr.Encodable.text encodable]

theorem Expr.text_eq_of_render {levels : Nat} {e : Expr} {t : Text} (written : e.render levels = .ok t) :
    e.text = t := by
  unfold render at written
  split at written
  · cases written
  · exact Except.ok.inj written

theorem Value.shown_eq_of_render {levels : Nat} {v : Value} {t : Text} (written : v.render levels = .ok t) :
    v.shown = t := by
  unfold render at written
  split at written
  · cases written
  · exact Except.ok.inj written

/-! ## Runs -/

/-- Everything that is bound or has been said can be encoded. -/
structure Progress.Encodable (now : Progress) : Prop where
  entries : ∀ frame name v, (now.store.bindings frame).find? name = some v → v.Encodable
  said : ∀ e ∈ now.said.toList, e.Encodable

theorem Progress.Encodable.start_empty : (Progress.start .empty).Encodable := by
  refine ⟨fun frame name v found => ?_, by simp [Progress.start]⟩
  exact absurd (Store.lt_size_of_find? found) (Nat.not_lt_zero frame)

theorem Progress.Encodable.push {now : Progress} (encodable : now.Encodable) {pairs : List (Text × Value)}
    (each : ∀ pair ∈ pairs, pair.2.Encodable) : (now.push (.ofPairs pairs)).Encodable := by
  refine ⟨fun frame name v found => ?_, encodable.said⟩
  rcases Store.entry_of_push found with new | old
  · exact each _ (Table.mem_of_find?_ofPairs new)
  · exact encodable.entries frame name v old

theorem Progress.Encodable.tell {now : Progress} (encodable : now.Encodable) {operand : Expr}
    (spoken : operand.Encodable) : (now.tell operand).Encodable := by
  refine ⟨encodable.entries, fun e member => ?_⟩
  have told : e ∈ now.said.toList ∨ e = operand := by simpa [Progress.tell] using member
  rcases told with earlier | rfl
  · exact encodable.said e earlier
  · exact spoken

/-- An operator yields what can be encoded, or complains of what can. -/
theorem BinaryOperator.satisfies_encodable (op : BinaryOperator) (mark levels : Nat) {a b : Value}
    (first : a.Encodable) (second : b.Encodable) :
    (op.apply mark levels a b).Satisfies Value.Encodable fun e => Text.Encodable e.description := by
  have glyph : Text.Encodable op.glyph := by cases op <;> exact Text.encodable_lit _
  have yields := @BinaryOperator.yields_apply mark levels op a b
  generalize op.apply mark levels a b = outcome at yields ⊢
  cases outcome with
  | halted h => trivial
  | success v =>
    cases yields trivial <;> trivial
  | failure e =>
    cases yields trivial with
    | leftOperand => simp [Outcome.Satisfies, Failure.description, glyph, first.shown]
    | rightOperand => simp [Outcome.Satisfies, Failure.description, glyph, second.shown]
    | divisionByZero => exact Text.encodable_lit _
    | overflow => simp [Outcome.Satisfies, Failure.description, glyph]

/-- Code in words that can be encoded, over values that can. -/
def Discipline.encodable : Discipline where
  inv := Progress.Encodable
  permitted e := Text.Encodable e.description
  admits _ _ e := e.Encodable
  good _ v := v.Encodable
  admits_later _ admitted := admitted
  good_later _ _ _ _ good := good
  parts admitted part member := by
    rcases Expr.mem_inside_or_unrolled member with inside | ⟨functional, rfl, rfl⟩
    · exact admitted.child (Expr.mem_children_of_mem_inside inside)
    · exact Expr.Encodable.fixedPoint (admitted.child List.mem_cons_self)
  literal _ := trivial
  truth _ := trivial
  found holds _ entry := by
    obtain ⟨frame, _, here⟩ := Store.exists_frame_of_lookup entry
    exact holds.entries frame _ _ here
  unbound admitted _ := by
    simp [Failure.description, Quoted.encodable_quote (admitted.word List.mem_cons_self)]
  unknownBinary admitted _ := by
    simp [Failure.description, admitted.word List.mem_cons_self]
  unknownUnary admitted _ := by
    simp [Failure.description, admitted.word List.mem_cons_self]
  operate levels holds _ _ first second :=
    ⟨⟨holds.entries, holds.said⟩, BinaryOperator.satisfies_encodable _ _ levels first second⟩
  say holds admitted _ :=
    have operand := admitted.child List.mem_cons_self
    ⟨holds.tell operand, operand⟩
  lambda admitted := ⟨fun _ => admitted.word, admitted.child List.mem_cons_self⟩
  notCallable good := by simp [Failure.description, good.shown]
  arityMismatch _ _ := by simp [Failure.description]
  call holds closure _ given := ⟨holds.push fun _ member => given _ (List.of_mem_zip member).2, closure.2⟩
  letIn holds admitted _ given :=
    ⟨holds.push fun _ member => given _ (List.of_mem_zip member).2, admitted.child (by simp [Expr.children])⟩
  notAFunction admitted refused := by
    obtain ⟨_, listed, _⟩ := exists_of_lambdasOf_eq_error refused
    simp [Failure.description, Quoted.encodable_quote (admitted.word (List.mem_map_of_mem listed))]
  letRec holds admitted := by
    refine ⟨holds.push fun pair member => ?_, admitted.child (by simp [Expr.children])⟩
    obtain ⟨_, listed, rfl⟩ := List.mem_map.mp member
    have code := admitted.child (List.mem_append_left _ (lambda_mem_lambdaBindings listed))
    exact ⟨fun _ => code.word, code.child List.mem_cons_self⟩

/-- Evaluation of what can be encoded, over what can, says, comes to and complains of what can be encoded. -/
theorem evaluate_encodable (channel : Channel) (levels : Nat) {e : Expr} (env : Env) {before : Progress}
    (code : e.Encodable) (holds : before.Encodable) :
    (evaluate channel levels e env before).2.Encodable ∧
      (evaluate channel levels e env before).1.Satisfies Value.Encodable fun e => Text.Encodable e.description := by
  have keeps : Discipline.encodable.Keeps before (evaluate channel levels e env) fun _ v => v.Encodable :=
    Discipline.encodable.keeps_evaluate channel levels code
  exact (keeps before (.refl before) holds).2

end CallByValue
