import CallByValue.Proofs.JsonData
import CallByValue.Proofs.WireForms
import Mathlib.Data.List.Nodup

/-!
# The first fault is blamed

The places where a datum does not fit are listed in the order in which the datum
is written: what is wrong with a part itself comes first and hides what lies in
it, then come the faults of its parts from left to right. Decoding accepts the
data without faults and complains about the first fault of every other one.
-/

namespace CallByValue

/-! ## Words -/

namespace Expectation

/-- Every expectation but those of a number of fields. -/
def uncounted : List Expectation :=
  [taggedArray, knownTag, name, glyph, bindings, binding, literal, expressions, someExpression, params, args]

theorem eq_fieldCount_or_mem_uncounted (e : Expectation) :
    (∃ tag given, e = fieldCount tag given) ∨ e ∈ uncounted := by
  cases e with
  | fieldCount tag given => exact .inl ⟨tag, given, rfl⟩
  | _ => exact .inr (by decide)

theorem nodup_uncounted_text : (uncounted.map text).Nodup := by decide +kernel

theorem take_text_uncounted : ∀ e ∈ uncounted, e.text.take 5 ≠ lit "Tag '" := by decide +kernel

theorem take_text_fieldCount (tag : Tag) (given : Nat) : (fieldCount tag given).text.take 5 = lit "Tag '" := rfl

/-- The word of a tag ends at the quote behind it. -/
theorem takeWhile_word_append (tag : Tag) (rest : Text) :
    (tag.word ++ (lit "' takes " ++ rest)).takeWhile (· ≠ CodePoint.ofChar '\'') = tag.word := by
  have unquoted : ∀ c ∈ tag.word, decide (c ≠ CodePoint.ofChar '\'') = true := by
    cases tag <;> decide
  have behind : (lit "' takes " ++ rest).takeWhile (· ≠ CodePoint.ofChar '\'') = [] := rfl
  rw [List.takeWhile_append_of_pos unquoted, behind, List.append_nil]

theorem fieldCount_eq_of_text {tag tag' : Tag} {given given' : Nat}
    (same : (fieldCount tag given).text = (fieldCount tag' given').text) :
    fieldCount tag given = fieldCount tag' given' := by
  simp only [text, List.append_assoc] at same
  have behind := List.append_cancel_left same
  obtain rfl : tag = tag' := by
    apply Tag.word_injective
    rw [← takeWhile_word_append tag, behind, takeWhile_word_append]
  have numbers : Text.ofNat given = Text.ofNat given' := by simpa using behind
  obtain rfl : given = given' := by rw [← Text.toNat_ofNat given, numbers, Text.toNat_ofNat]
  rfl

/-- Different expectations have different words. -/
theorem text_injective : Function.Injective text := by
  intro a b same
  rcases a.eq_fieldCount_or_mem_uncounted with ⟨tag, given, rfl⟩ | first <;>
    rcases b.eq_fieldCount_or_mem_uncounted with ⟨tag', given', rfl⟩ | second
  · exact fieldCount_eq_of_text same
  · exact absurd (same ▸ take_text_fieldCount tag given) (take_text_uncounted b second)
  · exact absurd (same ▸ take_text_fieldCount tag' given') (take_text_uncounted a first)
  · exact List.inj_on_of_nodup_map nodup_uncounted_text first second same

end Expectation

/-- The words of a complaint, if the host writes the datum that is complained about. -/
def Misfit.message (m : Misfit) : Except Halt Text := do
  let quoted ← m.datum.written
  return m.expected.text ++ lit ": " ++ quoted.take quoteLength

/-- The host stops no complaint about a datum whose integers have few enough digits. -/
theorem Misfit.message_eq_text {m : Misfit} (short : m.datum.Short) : m.message = .ok m.text := by
  rw [message, short.written_eq]
  rfl

namespace Wire

/-- What a part of a datum has to be. -/
inductive Kind where
  | word
  | literal
  | name
  | glyph
  | expression
  | params
  | args
  | clauses
  | clause
  | block

end Wire

/-- What the fields behind a tag have to be. -/
def Tag.kinds : Tag → List Wire.Kind
  | literal => [.literal]
  | var => [.name]
  | binary => [.glyph, .expression, .expression]
  | unary => [.glyph, .expression]
  | conditional => [.expression, .expression, .expression]
  | lambda => [.params, .expression]
  | apply => [.expression, .args]
  | letIn => [.clauses, .expression]
  | letRec => [.clauses, .expression]
  | sequence => [.block]
  | fix => [.expression]

namespace Wire

namespace Kind

/-- What is wrong with a datum itself, whatever its parts are. -/
def misfit? : Kind → Json → Option Expectation
  | word, _ => none
  | literal, .atom _ => none
  | literal, _ => some .literal
  | name, .atom (.text (_ :: _)) => none
  | name, _ => some .name
  | glyph, .atom (.text _) => none
  | glyph, _ => some .glyph
  | expression, .array (head :: fields) =>
    match Tag.ofJson? head with
    | none => some .knownTag
    | some tag => if fields.length = tag.fieldCount then none else some (.fieldCount tag fields.length)
  | expression, _ => some .taggedArray
  | params, .array _ => none
  | params, _ => some .params
  | args, .array _ => none
  | args, _ => some .args
  | clauses, .array _ => none
  | clauses, _ => some .bindings
  | clause, .array [_, _] => none
  | clause, _ => some .binding
  | block, .array [] => some .someExpression
  | block, .array _ => none
  | block, _ => some .expressions

/-- What the items of an array have to be, if nothing is wrong with the array itself. -/
def parts : Kind → List Json → List Kind
  | expression, head :: _ => .word :: (Tag.ofJson? head).elim [] Tag.kinds
  | params, items => items.map fun _ => name
  | args, items => items.map fun _ => expression
  | block, items => items.map fun _ => expression
  | clauses, items => items.map fun _ => clause
  | clause, _ => [name, expression]
  | _, _ => []

mutual

/-- The faults of a datum in the order in which it is written. -/
def faults (kind : Kind) : Json → List Misfit
  | .array items =>
    match kind.misfit? (.array items) with
    | some expected => [⟨expected, .array items⟩]
    | none => faultsOfParts (kind.parts items) items
  | .null => ((kind.misfit? .null).map (⟨·, .null⟩)).toList
  | .atom a => ((kind.misfit? (.atom a)).map (⟨·, .atom a⟩)).toList
  | .object members => ((kind.misfit? (.object members)).map (⟨·, .object members⟩)).toList

def faultsOfParts : List Kind → List Json → List Misfit
  | kind :: kinds, item :: items => faults kind item ++ faultsOfParts kinds items
  | _, _ => []

end

theorem faults_array {kind : Kind} {items : List Json} (fits : kind.misfit? (.array items) = none) :
    kind.faults (.array items) = faultsOfParts (kind.parts items) items := by
  rw [faults, fits]

theorem faults_of_misfit {kind : Kind} {d : Json} {expected : Expectation} (wrong : kind.misfit? d = some expected) :
    kind.faults d = [⟨expected, d⟩] := by
  cases d <;> simp [faults, wrong]

/-- A form of a known tag with as many fields as it takes has the faults of its fields. -/
theorem faults_fields {head : Json} {tag : Tag} (known : Tag.ofJson? head = some tag) {fields : List Json}
    (counted : fields.length = tag.fieldCount) :
    expression.faults (.array (head :: fields)) = faultsOfParts tag.kinds fields := by
  have fits : expression.misfit? (.array (head :: fields)) = none := by
    simp [misfit?, known, counted]
  have nothing : Kind.word.faults head = [] := by
    cases head <;> simp [faults, misfit?, parts, faultsOfParts]
  rw [faults_array fits, parts, known, Option.elim, faultsOfParts, nothing, List.nil_append]

mutual

/-- What is complained about is a part of the datum. -/
theorem atoms_subset_of_mem_faults : ∀ {kind : Kind} {d : Json} {m : Misfit}, m ∈ kind.faults d →
    m.datum.atoms ⊆ d.atoms
  | kind, .null, m, member => by
    obtain ⟨expected, -, rfl⟩ : ∃ expected, kind.misfit? .null = some expected ∧ ⟨expected, .null⟩ = m := by
      simpa [faults] using member
    exact List.Subset.refl _
  | kind, .atom a, m, member => by
    obtain ⟨expected, -, rfl⟩ :
        ∃ expected, kind.misfit? (.atom a) = some expected ∧ ⟨expected, .atom a⟩ = m := by
      simpa [faults] using member
    exact List.Subset.refl _
  | kind, .object members, m, member => by
    obtain ⟨expected, -, rfl⟩ :
        ∃ expected, kind.misfit? (.object members) = some expected ∧ ⟨expected, .object members⟩ = m := by
      simpa [faults] using member
    exact List.Subset.refl _
  | kind, .array items, m, member => by
    rw [faults] at member
    split at member
    · rw [List.mem_singleton.mp member]
      exact List.Subset.refl _
    · exact atoms_subset_of_mem_faultsOfParts member

theorem atoms_subset_of_mem_faultsOfParts : ∀ {kinds : List Kind} {items : List Json} {m : Misfit},
    m ∈ faultsOfParts kinds items → m.datum.atoms ⊆ Json.atomsOfItems items
  | kind :: kinds, item :: items, m, member => by
    rw [faultsOfParts] at member
    rcases List.mem_append.mp member with first | later
    · exact List.Subset.trans (atoms_subset_of_mem_faults first) (List.subset_append_left _ _)
    · exact List.Subset.trans (atoms_subset_of_mem_faultsOfParts later) (List.subset_append_right _ _)
  | [], _, _, member => by simp [faultsOfParts] at member
  | _ :: _, [], _, member => by simp [faultsOfParts] at member

end

end Kind

/-! ## Decoding stops at the first fault -/

/-- What a result complains about. -/
def blamed {α : Type} : Except Misfit α → Option Misfit
  | .ok _ => none
  | .error m => some m

theorem blamed_eq_none_iff {α : Type} {r : Except Misfit α} : blamed r = none ↔ ∃ a, r = .ok a := by
  cases r with
  | ok a => simp [blamed]
  | error m => simp [blamed]

theorem blamed_eq_some_iff {α : Type} {r : Except Misfit α} {m : Misfit} : blamed r = some m ↔ r = .error m := by
  cases r with
  | ok a => simp [blamed]
  | error m => simp [blamed]

/-- The second of two steps is blamed only where nothing is wrong with the first. -/
theorem blamed_bind {α β : Type} {first : Except Misfit α} {rest : α → Except Misfit β} {f g : List Misfit}
    (here : blamed first = f.head?) (there : ∀ a, blamed (rest a) = g.head?) :
    blamed (first >>= rest) = (f ++ g).head? := by
  cases first with
  | error m =>
    cases f with
    | nil => cases here
    | cons n f => exact here
  | ok a =>
    cases f with
    | nil => exact there a
    | cons n f => cases here

theorem blamed_return {α β : Type} {first : Except Misfit α} {g : α → β} {f : List Misfit}
    (here : blamed first = f.head?) : blamed (do return g (← first)) = f.head? := by
  have whole : blamed (first >>= fun a => pure (g a)) = (f ++ []).head? := blamed_bind here fun _ => rfl
  rwa [List.append_nil] at whole

theorem blamed_decodeLiteral (d : Json) : blamed (decodeLiteral d) = (Kind.literal.faults d).head? := by
  cases d <;> rfl

theorem blamed_decodeName (d : Json) : blamed (decodeName d) = (Kind.name.faults d).head? := by
  rcases d with _ | (_ | _ | ⟨_ | _⟩) | _ | _ <;> rfl

theorem blamed_decodeGlyph (d : Json) : blamed (decodeGlyph d) = (Kind.glyph.faults d).head? := by
  rcases d with _ | (_ | _ | _) | _ | _ <;> rfl

theorem blamed_decodeNames (data : List Json) :
    blamed (decodeNames data) = (Kind.faultsOfParts (data.map fun _ => .name) data).head? := by
  induction data with
  | nil => rfl
  | cons d data ih => exact blamed_bind (blamed_decodeName d) fun _ => blamed_return ih

theorem blamed_decodeParams (d : Json) : blamed (decodeParams d) = (Kind.params.faults d).head? := by
  cases d with
  | array data => exact blamed_decodeNames data
  | null | atom _ | object _ => rfl

mutual

/-- Decoding complains about the first fault. -/
theorem blamed_decode : ∀ d : Json, blamed (decode d) = (Kind.expression.faults d).head?
  | .null => rfl
  | .atom _ => rfl
  | .object _ => rfl
  | .array [] => rfl
  | .array (head :: fields) => by
    rcases known : Tag.ofJson? head with _ | tag
    · have wrong : Kind.expression.misfit? (.array (head :: fields)) = some .knownTag := by
        simp [Kind.misfit?, known]
      rw [decode_unknown known, Kind.faults_of_misfit wrong]
      rfl
    by_cases counted : fields.length = tag.fieldCount
    case neg =>
      have wrong : Kind.expression.misfit? (.array (head :: fields)) = some (.fieldCount tag fields.length) := by
        simp [Kind.misfit?, known, counted]
      rw [decode_miscounted known counted, Kind.faults_of_misfit wrong]
      rfl
    rw [Kind.faults_fields known counted]
    cases tag with
    | literal =>
      match fields, counted with
      | [value], _ =>
        rw [decode_literal known]
        exact blamed_bind (blamed_decodeLiteral value) fun _ => rfl
    | var =>
      match fields, counted with
      | [name], _ =>
        rw [decode_var known]
        exact blamed_bind (blamed_decodeName name) fun _ => rfl
    | binary =>
      match fields, counted with
      | [glyph, left, right], _ =>
        rw [decode_binary known]
        exact blamed_bind (blamed_decodeGlyph glyph) fun _ => blamed_bind (blamed_decode left) fun _ =>
          blamed_bind (blamed_decode right) fun _ => rfl
    | unary =>
      match fields, counted with
      | [glyph, operand], _ =>
        rw [decode_unary known]
        exact blamed_bind (blamed_decodeGlyph glyph) fun _ => blamed_bind (blamed_decode operand) fun _ => rfl
    | conditional =>
      match fields, counted with
      | [test, yes, no], _ =>
        rw [decode_conditional known]
        exact blamed_bind (blamed_decode test) fun _ => blamed_bind (blamed_decode yes) fun _ =>
          blamed_bind (blamed_decode no) fun _ => rfl
    | lambda =>
      match fields, counted with
      | [params, body], _ =>
        rw [decode_lambda known]
        exact blamed_bind (blamed_decodeParams params) fun _ => blamed_bind (blamed_decode body) fun _ => rfl
    | apply =>
      match fields, counted with
      | [callee, .array args], _ =>
        rw [decode_apply known]
        exact blamed_bind (blamed_decode callee) fun _ => blamed_bind (blamed_decodeAll args) fun _ => rfl
      | [callee, .null], _ | [callee, .atom _], _ | [callee, .object _], _ =>
        rw [decode_apply known]
        exact blamed_bind (blamed_decode callee) fun _ => rfl
    | letIn =>
      match fields, counted with
      | [.array bindings, body], _ =>
        rw [decode_letIn known]
        exact blamed_bind (blamed_decodeBindings bindings) fun _ => blamed_bind (blamed_decode body) fun _ => rfl
      | [.null, _], _ | [.atom _, _], _ | [.object _, _], _ =>
        rw [decode_letIn known]
        rfl
    | letRec =>
      match fields, counted with
      | [.array bindings, body], _ =>
        rw [decode_letRec known]
        exact blamed_bind (blamed_decodeBindings bindings) fun _ => blamed_bind (blamed_decode body) fun _ => rfl
      | [.null, _], _ | [.atom _, _], _ | [.object _, _], _ =>
        rw [decode_letRec known]
        rfl
    | sequence =>
      match fields, counted with
      | [.array (first :: rest)], _ =>
        rw [decode_sequence known]
        have items :
            blamed (decodeBlock (.array (first :: rest))) = (Kind.block.faults (.array (first :: rest))).head? :=
          blamed_bind (blamed_decode first) fun _ => blamed_return (blamed_decodeAll rest)
        exact items.trans (congrArg List.head? (List.append_nil _).symm)
      | [.array []], _ | [.null], _ | [.atom _], _ | [.object _], _ =>
        rw [decode_sequence known]
        rfl
    | fix =>
      match fields, counted with
      | [functional], _ =>
        rw [decode_fix known]
        exact blamed_bind (blamed_decode functional) fun _ => rfl

theorem blamed_decodeAll : ∀ data : List Json,
    blamed (decodeAll data) = (Kind.faultsOfParts (data.map fun _ => .expression) data).head?
  | [] => rfl
  | d :: data => by
    rw [decodeAll]
    exact blamed_bind (blamed_decode d) fun _ => blamed_return (blamed_decodeAll data)

theorem blamed_decodeBindings : ∀ data : List Json,
    blamed (decodeBindings data) = (Kind.faultsOfParts (data.map fun _ => .clause) data).head?
  | [] => by
    rw [decodeBindings]
    rfl
  | .array [name, value] :: data => by
    rw [decodeBindings]
    have clause :
        Kind.clause.faults (.array [name, value]) = Kind.name.faults name ++ Kind.expression.faults value := by
      simp [Kind.faults, Kind.misfit?, Kind.parts, Kind.faultsOfParts]
    rw [List.map_cons, Kind.faultsOfParts, clause, List.append_assoc]
    exact blamed_bind (blamed_decodeName name) fun _ => blamed_bind (blamed_decode value) fun _ =>
      blamed_return (blamed_decodeBindings data)
  | .null :: _ | .atom _ :: _ | .object _ :: _ | .array [] :: _ | .array [_] :: _
  | .array (_ :: _ :: _ :: _) :: _ => by
    rw [decodeBindings]
    · rfl
    all_goals nofun

end

/-! ## What a caller gets -/

/-- A sequence is built from one expression at least. -/
theorem sequence?_of_decode {items : List Json} {e : Expr}
    (accepted : decode (tagged .sequence [.array items]) = .ok e) :
    ∃ es, es ≠ [] ∧ decodeAll items = .ok es ∧ Expr.sequence? es = some e := by
  rw [tagged, decode_sequence (Tag.ofJson?_word _)] at accepted
  cases items with
  | nil => cases accepted
  | cons first rest =>
    simp only [decodeBlock, Except.bind_eq_ok_iff, Except.pure_eq_ok_iff] at accepted
    obtain ⟨a, head, as, tail, rfl⟩ := accepted
    refine ⟨a :: as, List.cons_ne_nil _ _, ?_, rfl⟩
    rw [decodeAll, head, tail]
    rfl

/-- Exactly the data without faults are accepted. Of any other datum the first fault is complained
    about, in words that quote the beginning of its text, and nothing stops the complaint. The words tell what was
    expected. -/
theorem decode_blames_first_fault {d : Json} (short : d.Short) :
    ((∃ e, decode d = .ok e) ↔ Kind.expression.faults d = []) ∧
      (∀ m later, Kind.expression.faults d = m :: later →
        decode d = .error m ∧ m.message = .ok (m.expected.text ++ lit ": " ++ m.datum.text.take 60)) ∧
      (∀ items e, decode (tagged .sequence [.array items]) = .ok e →
        ∃ es, es ≠ [] ∧ decodeAll items = .ok es ∧ Expr.sequence? es = some e) ∧
      Function.Injective Expectation.text := by
  refine ⟨?_, fun m later listed => ?_, fun _ _ => sequence?_of_decode, Expectation.text_injective⟩
  · rw [← blamed_eq_none_iff, blamed_decode, List.head?_eq_none_iff]
  · have first : blamed (decode d) = some m := by
      rw [blamed_decode, listed, List.head?_cons]
    have shortPart : m.datum.Short := by
      intro n present
      have member : m ∈ Kind.expression.faults d := by simp [listed]
      exact short n (Kind.atoms_subset_of_mem_faults member present)
    exact ⟨blamed_eq_some_iff.mp first, m.message_eq_text shortPart⟩

/-- Of the empty block and the arguments that are no list, the block is complained about. -/
theorem decode_blames_empty_block :
    let d := tagged .apply [tagged .sequence [.array []], .object [(lit "n", .atom (.number (.integer 5)))]]
    d.Short ∧ Kind.expression.faults d =
        [⟨.someExpression, .array []⟩, ⟨.args, .object [(lit "n", .atom (.number (.integer 5)))]⟩] ∧
      decode d = .error ⟨.someExpression, .array []⟩ ∧
      Misfit.message ⟨.someExpression, .array []⟩ =
        .ok (lit "A begin-block needs at least one expression: []") := by
  intro d
  have short : d.Short := by
    intro n present
    have five : n = 5 := by
      simpa [d, tagged, Json.string, Json.atoms, Json.atomsOfItems, Json.atomsOfMembers] using present
    rw [five, Nat.pow_eq]
    exact lt_trans (by decide : Int.natAbs 5 < digitLimit) (Nat.lt_pow_self (by decide))
  have listed : Kind.expression.faults d =
      [⟨.someExpression, .array []⟩, ⟨.args, .object [(lit "n", .atom (.number (.integer 5)))]⟩] := rfl
  obtain ⟨refused, message⟩ := (decode_blames_first_fault short).2.1 _ _ listed
  exact ⟨short, listed, refused, message⟩

end Wire

end CallByValue
