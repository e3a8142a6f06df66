import CallByValue.Wire
import Mathlib.Data.Set.Function

/-!
# Expressions and their data

Decoding undoes encoding and encoding undoes decoding. The data that are accepted
and the expressions all of whose names have a letter at least stand for each
other one to one: nothing is dropped, reordered or made uniform on the way.
-/

namespace CallByValue

namespace Tag

theorem ofJson?_word (tag : Tag) : ofJson? (.string tag.word) = some tag := by
  cases tag <;> decide

theorem word_injective : Function.Injective word := by
  intro tag tag' same
  have known := ofJson?_word tag
  rw [same, ofJson?_word] at known
  exact (Option.some.inj known).symm

/-- A tag is known by its word only. -/
theorem ofJson?_eq_some_iff {datum : Json} {tag : Tag} : ofJson? datum = some tag ↔ datum = .string tag.word := by
  constructor
  · intro known
    unfold ofJson? at known
    split at known
    · next t =>
      have same : tag.word = t := by simpa using List.find?_some known
      rw [← same]
      rfl
    · cases known
  · rintro rfl
    exact ofJson?_word tag

end Tag

theorem Except.bind_eq_ok_iff {ε α β : Type} {first : Except ε α} {rest : α → Except ε β} {b : β} :
    (first >>= rest) = .ok b ↔ ∃ a, first = .ok a ∧ rest a = .ok b := by
  cases first with
  | error e => exact ⟨nofun, nofun⟩
  | ok a => exact ⟨fun h => ⟨a, rfl, h⟩, fun ⟨_, h, k⟩ => Except.ok.inj h ▸ k⟩

theorem Except.pure_eq_ok_iff {ε α : Type} {a b : α} : (pure a : Except ε α) = .ok b ↔ a = b :=
  ⟨Except.ok.inj, congrArg Except.ok⟩

namespace Wire

/-! ## One equation for each form -/

/-- The expressions of an argument list. -/
def decodeArgs : Json → Except Misfit (List Expr)
  | .array data => decodeAll data
  | datum => .error ⟨.args, datum⟩

/-- The clauses of a list of bindings. -/
def decodeClauses : Json → Except Misfit (List (Text × Expr))
  | .array data => decodeBindings data
  | datum => .error ⟨.bindings, datum⟩

/-- A sequence of at least one expression. -/
def decodeBlock : Json → Except Misfit Expr
  | .array [] => .error ⟨.someExpression, .array []⟩
  | .array (first :: rest) => do
    let first ← decode first
    let rest ← decodeAll rest
    return .sequence first rest
  | datum => .error ⟨.expressions, datum⟩

section
variable {head : Json}

-- Makes the equations of the definition once, before the proofs that all need them.
attribute [local simp] decode

theorem decode_literal (known : Tag.ofJson? head = some .literal) (value : Json) :
    decode (.array [head, value]) = (do return .literal (← decodeLiteral value)) := by
  simp only [decode, known]

theorem decode_var (known : Tag.ofJson? head = some .var) (name : Json) :
    decode (.array [head, name]) = (do return .var (← decodeName name)) := by
  simp only [decode, known]

theorem decode_binary (known : Tag.ofJson? head = some .binary) (glyph left right : Json) :
    decode (.array [head, glyph, left, right]) = (do
      let glyph ← decodeGlyph glyph
      let left ← decode left
      let right ← decode right
      return .binary glyph left right) := by
  simp only [decode, known]

theorem decode_unary (known : Tag.ofJson? head = some .unary) (glyph operand : Json) :
    decode (.array [head, glyph, operand]) = (do
      let glyph ← decodeGlyph glyph
      let operand ← decode operand
      return .unary glyph operand) := by
  simp only [decode, known]

theorem decode_conditional (known : Tag.ofJson? head = some .conditional) (test yes no : Json) :
    decode (.array [head, test, yes, no]) = (do
      let test ← decode test
      let yes ← decode yes
      let no ← decode no
      return .conditional test yes no) := by
  simp only [decode, known]

theorem decode_lambda (known : Tag.ofJson? head = some .lambda) (params body : Json) :
    decode (.array [head, params, body]) = (do
      let params ← decodeParams params
      let body ← decode body
      return .lambda params body) := by
  simp only [decode, known]

theorem decode_apply (known : Tag.ofJson? head = some .apply) (callee args : Json) :
    decode (.array [head, callee, args]) = (do
      let callee ← decode callee
      let args ← decodeArgs args
      return .apply callee args) := by
  cases args <;> simp only [decode, known, decodeArgs] <;> rfl

theorem decode_letIn (known : Tag.ofJson? head = some .letIn) (bindings body : Json) :
    decode (.array [head, bindings, body]) = (do
      let bindings ← decodeClauses bindings
      let body ← decode body
      return .letIn bindings body) := by
  cases bindings <;> simp only [decode, known, decodeClauses] <;> rfl

theorem decode_letRec (known : Tag.ofJson? head = some .letRec) (bindings body : Json) :
    decode (.array [head, bindings, body]) = (do
      let bindings ← decodeClauses bindings
      let body ← decode body
      return .letRec bindings body) := by
  cases bindings <;> simp only [decode, known, decodeClauses] <;> rfl

theorem decode_sequence (known : Tag.ofJson? head = some .sequence) (exprs : Json) :
    decode (.array [head, exprs]) = decodeBlock exprs := by
  cases exprs with
  | array items => cases items <;> simp only [decode, known, decodeBlock]
  | _ => simp only [decode, known, decodeBlock]

theorem decode_fix (known : Tag.ofJson? head = some .fix) (functional : Json) :
    decode (.array [head, functional]) = (do return .fix (← decode functional)) := by
  simp only [decode, known]

theorem decode_unknown (unknown : Tag.ofJson? head = none) (fields : List Json) :
    decode (.array (head :: fields)) = .error ⟨.knownTag, .array (head :: fields)⟩ := by
  simp only [decode, unknown]

theorem decode_miscounted {tag : Tag} (known : Tag.ofJson? head = some tag) {fields : List Json}
    (wrong : fields.length ≠ tag.fieldCount) :
    decode (.array (head :: fields)) = .error ⟨.fieldCount tag fields.length, .array (head :: fields)⟩ := by
  rw [decode.eq_def]
  simp only [known]
  split <;> simp_all [Tag.fieldCount]

end

end Wire

/-! ## Names -/

namespace Expr

mutual

/-- The names that an expression is written with: variables, parameters and what bindings bind. -/
def names : Expr → List Text
  | .literal _ => []
  | .var x => [x]
  | .binary _ a b => names a ++ names b
  | .unary _ a => names a
  | .conditional a b c => names a ++ (names b ++ names c)
  | .lambda ps a => ps ++ names a
  | .apply f as => names f ++ namesOfAll as
  | .letIn bs a => namesOfBindings bs ++ names a
  | .letRec bs a => namesOfBindings bs ++ names a
  | .sequence a as => names a ++ namesOfAll as
  | .fix a => names a

def namesOfAll : List Expr → List Text
  | [] => []
  | a :: as => names a ++ namesOfAll as

def namesOfBindings : List (Text × Expr) → List Text
  | [] => []
  | (x, a) :: as => x :: (names a ++ namesOfBindings as)

end

/-- No name is empty. -/
def Named (e : Expr) : Prop := ∀ x ∈ e.names, x ≠ []

instance (e : Expr) : Decidable e.Named := inferInstanceAs (Decidable (∀ x ∈ e.names, x ≠ []))

end Expr

namespace Wire
open CallByValue.Expr (names namesOfAll namesOfBindings)

/-! ## Decoding what was encoded -/

theorem decodeName_string {x : Text} (named : x ≠ []) : decodeName (.string x) = .ok x := by
  cases x with
  | nil => exact absurd rfl named
  | cons c rest => rfl

theorem decodeNames_map_string {xs : List Text} (named : ∀ x ∈ xs, x ≠ []) :
    decodeNames (xs.map .string) = .ok xs := by
  induction xs with
  | nil => rfl
  | cons x xs ih =>
    obtain ⟨head, tail⟩ := List.forall_mem_cons.mp named
    rw [List.map_cons, decodeNames, decodeName_string head, ih tail]
    rfl

mutual

theorem decode_encode : ∀ {e : Expr}, (∀ x ∈ e.names, x ≠ []) → decode (encode e) = .ok e
  | .literal a, _ => by
    rw [encode, tagged, decode_literal (Tag.ofJson?_word _)]
    rfl
  | .var x, named => by
    have given : x ≠ [] := named x (by simp [names])
    rw [encode, tagged, decode_var (Tag.ofJson?_word _), decodeName_string given]
    rfl
  | .binary g a b, named => by
    obtain ⟨left, right⟩ := List.forall_mem_append.mp named
    rw [encode, tagged, decode_binary (Tag.ofJson?_word _), decode_encode left, decode_encode right]
    rfl
  | .unary g a, named => by
    have operand : ∀ x ∈ names a, x ≠ [] := named
    rw [encode, tagged, decode_unary (Tag.ofJson?_word _), decode_encode operand]
    rfl
  | .conditional a b c, named => by
    obtain ⟨test, branches⟩ := List.forall_mem_append.mp named
    obtain ⟨yes, no⟩ := List.forall_mem_append.mp branches
    rw [encode, tagged, decode_conditional (Tag.ofJson?_word _), decode_encode test, decode_encode yes,
      decode_encode no]
    rfl
  | .lambda ps a, named => by
    obtain ⟨params, body⟩ := List.forall_mem_append.mp named
    rw [encode, tagged, decode_lambda (Tag.ofJson?_word _), decodeParams, decodeNames_map_string params,
      decode_encode body]
    rfl
  | .apply f as, named => by
    obtain ⟨callee, args⟩ := List.forall_mem_append.mp named
    rw [encode, tagged, decode_apply (Tag.ofJson?_word _), decode_encode callee, decodeArgs, decodeAll_encodeAll args]
    rfl
  | .letIn bs a, named => by
    obtain ⟨bindings, body⟩ := List.forall_mem_append.mp named
    rw [encode, tagged, decode_letIn (Tag.ofJson?_word _), decodeClauses, decodeBindings_encodeBindings bindings,
      decode_encode body]
    rfl
  | .letRec bs a, named => by
    obtain ⟨bindings, body⟩ := List.forall_mem_append.mp named
    rw [encode, tagged, decode_letRec (Tag.ofJson?_word _), decodeClauses, decodeBindings_encodeBindings bindings,
      decode_encode body]
    rfl
  | .sequence a as, named => by
    obtain ⟨first, rest⟩ := List.forall_mem_append.mp named
    rw [encode, tagged, decode_sequence (Tag.ofJson?_word _), decodeBlock, decode_encode first,
      decodeAll_encodeAll rest]
    rfl
  | .fix a, named => by
    have functional : ∀ x ∈ names a, x ≠ [] := named
    rw [encode, tagged, decode_fix (Tag.ofJson?_word _), decode_encode functional]
    rfl

theorem decodeAll_encodeAll : ∀ {es : List Expr}, (∀ x ∈ namesOfAll es, x ≠ []) →
    decodeAll (encodeAll es) = .ok es
  | [], _ => rfl
  | e :: es, named => by
    obtain ⟨head, tail⟩ := List.forall_mem_append.mp named
    rw [encodeAll, decodeAll, decode_encode head, decodeAll_encodeAll tail]
    rfl

theorem decodeBindings_encodeBindings : ∀ {bs : List (Text × Expr)}, (∀ x ∈ namesOfBindings bs, x ≠ []) →
    decodeBindings (encodeBindings bs) = .ok bs
  | [], _ => by rw [encodeBindings, decodeBindings]
  | (x, e) :: bs, named => by
    obtain ⟨name, others⟩ := List.forall_mem_cons.mp named
    obtain ⟨head, tail⟩ := List.forall_mem_append.mp others
    rw [encodeBindings, decodeBindings, decodeName_string name, decode_encode head,
      decodeBindings_encodeBindings tail]
    rfl

end

/-! ## Encoding what was decoded -/

theorem eq_string_of_decodeName {datum : Json} {x : Text} (decoded : decodeName datum = .ok x) :
    datum = .string x ∧ x ≠ [] := by
  unfold decodeName at decoded
  split at decoded
  · cases decoded
    exact ⟨rfl, List.cons_ne_nil _ _⟩
  · cases decoded

theorem eq_string_of_decodeGlyph {datum : Json} {g : Text} (decoded : decodeGlyph datum = .ok g) :
    datum = .string g := by
  unfold decodeGlyph at decoded
  split at decoded
  · cases decoded
    rfl
  · cases decoded

theorem eq_atom_of_decodeLiteral {datum : Json} {a : Atom} (decoded : decodeLiteral datum = .ok a) :
    datum = .atom a := by
  unfold decodeLiteral at decoded
  split at decoded
  · cases decoded
    rfl
  · cases decoded

theorem eq_map_string_of_decodeNames {data : List Json} {xs : List Text} (decoded : decodeNames data = .ok xs) :
    data = xs.map .string ∧ ∀ x ∈ xs, x ≠ [] := by
  induction data generalizing xs with
  | nil =>
    cases decoded
    exact ⟨rfl, by simp⟩
  | cons datum data ih =>
    rw [decodeNames, Except.bind_eq_ok_iff] at decoded
    obtain ⟨x, head, others⟩ := decoded
    obtain ⟨rest, tail, returned⟩ := Except.bind_eq_ok_iff.mp others
    cases returned
    obtain ⟨rfl, named⟩ := eq_string_of_decodeName head
    obtain ⟨rfl, restNamed⟩ := ih tail
    exact ⟨rfl, List.forall_mem_cons.mpr ⟨named, restNamed⟩⟩

theorem eq_array_of_decodeParams {datum : Json} {xs : List Text} (decoded : decodeParams datum = .ok xs) :
    datum = .array (xs.map .string) ∧ ∀ x ∈ xs, x ≠ [] := by
  unfold decodeParams at decoded
  split at decoded
  · obtain ⟨rfl, named⟩ := eq_map_string_of_decodeNames decoded
    exact ⟨rfl, named⟩
  · cases decoded

mutual

/-- What is accepted is the encoding of what it is accepted as. -/
theorem encode_of_decode : ∀ {d : Json} {e : Expr}, decode d = .ok e → encode e = d ∧ ∀ x ∈ e.names, x ≠ []
  | .null, _, decoded => by simp [decode] at decoded
  | .atom _, _, decoded => by simp [decode] at decoded
  | .object _, _, decoded => by simp [decode] at decoded
  | .array [], _, decoded => by simp [decode] at decoded
  | .array (head :: fields), e, decoded => by
    rcases known : Tag.ofJson? head with _ | tag
    · rw [decode_unknown known] at decoded
      cases decoded
    by_cases counted : fields.length = tag.fieldCount
    case neg =>
      rw [decode_miscounted known counted] at decoded
      cases decoded
    have spelled := Tag.ofJson?_eq_some_iff.mp known
    cases tag with
    | literal =>
      match fields, counted with
      | [value], _ =>
        simp only [decode_literal known, Except.bind_eq_ok_iff, Except.pure_eq_ok_iff] at decoded
        obtain ⟨a, accepted, rfl⟩ := decoded
        rw [eq_atom_of_decodeLiteral accepted, spelled]
        exact ⟨rfl, nofun⟩
    | var =>
      match fields, counted with
      | [name], _ =>
        simp only [decode_var known, Except.bind_eq_ok_iff, Except.pure_eq_ok_iff] at decoded
        obtain ⟨x, accepted, rfl⟩ := decoded
        obtain ⟨rfl, named⟩ := eq_string_of_decodeName accepted
        rw [spelled]
        exact ⟨rfl, List.forall_mem_singleton.mpr named⟩
    | binary =>
      match fields, counted with
      | [glyph, left, right], _ =>
        simp only [decode_binary known, Except.bind_eq_ok_iff, Except.pure_eq_ok_iff] at decoded
        obtain ⟨g, glyphAccepted, a, leftAccepted, b, rightAccepted, rfl⟩ := decoded
        obtain ⟨rfl, leftNamed⟩ := encode_of_decode leftAccepted
        obtain ⟨rfl, rightNamed⟩ := encode_of_decode rightAccepted
        rw [eq_string_of_decodeGlyph glyphAccepted, spelled]
        exact ⟨rfl, List.forall_mem_append.mpr ⟨leftNamed, rightNamed⟩⟩
    | unary =>
      match fields, counted with
      | [glyph, operand], _ =>
        simp only [decode_unary known, Except.bind_eq_ok_iff, Except.pure_eq_ok_iff] at decoded
        obtain ⟨g, glyphAccepted, a, accepted, rfl⟩ := decoded
        obtain ⟨rfl, named⟩ := encode_of_decode accepted
        rw [eq_string_of_decodeGlyph glyphAccepted, spelled]
        exact ⟨rfl, named⟩
    | conditional =>
      match fields, counted with
      | [test, yes, no], _ =>
        simp only [decode_conditional known, Except.bind_eq_ok_iff, Except.pure_eq_ok_iff] at decoded
        obtain ⟨a, testAccepted, b, yesAccepted, c, noAccepted, rfl⟩ := decoded
        obtain ⟨rfl, testNamed⟩ := encode_of_decode testAccepted
        obtain ⟨rfl, yesNamed⟩ := encode_of_decode yesAccepted
        obtain ⟨rfl, noNamed⟩ := encode_of_decode noAccepted
        rw [spelled]
        exact ⟨rfl, List.forall_mem_append.mpr ⟨testNamed, List.forall_mem_append.mpr ⟨yesNamed, noNamed⟩⟩⟩
    | lambda =>
      match fields, counted with
      | [params, body], _ =>
        simp only [decode_lambda known, Except.bind_eq_ok_iff, Except.pure_eq_ok_iff] at decoded
        obtain ⟨ps, paramsAccepted, a, bodyAccepted, rfl⟩ := decoded
        obtain ⟨rfl, paramsNamed⟩ := eq_array_of_decodeParams paramsAccepted
        obtain ⟨rfl, bodyNamed⟩ := encode_of_decode bodyAccepted
        rw [spelled]
        exact ⟨rfl, List.forall_mem_append.mpr ⟨paramsNamed, bodyNamed⟩⟩
    | apply =>
      match fields, counted with
      | [callee, .array args], _ =>
        simp only [decode_apply known, decodeArgs, Except.bind_eq_ok_iff, Except.pure_eq_ok_iff] at decoded
        obtain ⟨f, calleeAccepted, as, argsAccepted, rfl⟩ := decoded
        obtain ⟨rfl, calleeNamed⟩ := encode_of_decode calleeAccepted
        obtain ⟨rfl, argsNamed⟩ := encodeAll_of_decodeAll argsAccepted
        rw [spelled]
        exact ⟨rfl, List.forall_mem_append.mpr ⟨calleeNamed, argsNamed⟩⟩
      | [callee, .null], _ | [callee, .atom _], _ | [callee, .object _], _ =>
        simp [decode_apply known, decodeArgs, Except.bind_eq_ok_iff] at decoded
    | letIn =>
      match fields, counted with
      | [.array bindings, body], _ =>
        simp only [decode_letIn known, decodeClauses, Except.bind_eq_ok_iff, Except.pure_eq_ok_iff] at decoded
        obtain ⟨bs, bindingsAccepted, a, bodyAccepted, rfl⟩ := decoded
        obtain ⟨rfl, bindingsNamed⟩ := encodeBindings_of_decodeBindings bindingsAccepted
        obtain ⟨rfl, bodyNamed⟩ := encode_of_decode bodyAccepted
        rw [spelled]
        exact ⟨rfl, List.forall_mem_append.mpr ⟨bindingsNamed, bodyNamed⟩⟩
      | [.null, body], _ | [.atom _, body], _ | [.object _, body], _ =>
        simp [decode_letIn known, decodeClauses, Except.bind_eq_ok_iff] at decoded
    | letRec =>
      match fields, counted with
      | [.array bindings, body], _ =>
        simp only [decode_letRec known, decodeClauses, Except.bind_eq_ok_iff, Except.pure_eq_ok_iff] at decoded
        obtain ⟨bs, bindingsAccepted, a, bodyAccepted, rfl⟩ := decoded
        obtain ⟨rfl, bindingsNamed⟩ := encodeBindings_of_decodeBindings bindingsAccepted
        obtain ⟨rfl, bodyNamed⟩ := encode_of_decode bodyAccepted
        rw [spelled]
        exact ⟨rfl, List.forall_mem_append.mpr ⟨bindingsNamed, bodyNamed⟩⟩
      | [.null, body], _ | [.atom _, body], _ | [.object _, body], _ =>
        simp [decode_letRec known, decodeClauses, Except.bind_eq_ok_iff] at decoded
    | sequence =>
      match fields, counted with
      | [.array (first :: rest)], _ =>
        simp only [decode_sequence known, decodeBlock, Except.bind_eq_ok_iff, Except.pure_eq_ok_iff] at decoded
        obtain ⟨a, firstAccepted, as, restAccepted, rfl⟩ := decoded
        obtain ⟨rfl, firstNamed⟩ := encode_of_decode firstAccepted
        obtain ⟨rfl, restNamed⟩ := encodeAll_of_decodeAll restAccepted
        rw [spelled]
        exact ⟨rfl, List.forall_mem_append.mpr ⟨firstNamed, restNamed⟩⟩
      | [.array []], _ | [.null], _ | [.atom _], _ | [.object _], _ =>
        simp [decode_sequence known, decodeBlock] at decoded
    | fix =>
      match fields, counted with
      | [functional], _ =>
        simp only [decode_fix known, Except.bind_eq_ok_iff, Except.pure_eq_ok_iff] at decoded
        obtain ⟨a, accepted, rfl⟩ := decoded
        obtain ⟨rfl, named⟩ := encode_of_decode accepted
        rw [spelled]
        exact ⟨rfl, named⟩

theorem encodeAll_of_decodeAll : ∀ {data : List Json} {es : List Expr}, decodeAll data = .ok es →
    encodeAll es = data ∧ ∀ x ∈ namesOfAll es, x ≠ []
  | [], es, decoded => by
    rw [decodeAll] at decoded
    cases decoded
    exact ⟨rfl, nofun⟩
  | datum :: data, es, decoded => by
    simp only [decodeAll, Except.bind_eq_ok_iff, Except.pure_eq_ok_iff] at decoded
    obtain ⟨a, headAccepted, as, tailAccepted, rfl⟩ := decoded
    obtain ⟨rfl, headNamed⟩ := encode_of_decode headAccepted
    obtain ⟨rfl, tailNamed⟩ := encodeAll_of_decodeAll tailAccepted
    exact ⟨rfl, List.forall_mem_append.mpr ⟨headNamed, tailNamed⟩⟩

theorem encodeBindings_of_decodeBindings : ∀ {data : List Json} {bs : List (Text × Expr)},
    decodeBindings data = .ok bs → encodeBindings bs = data ∧ ∀ x ∈ namesOfBindings bs, x ≠ []
  | [], bs, decoded => by
    rw [decodeBindings] at decoded
    cases decoded
    exact ⟨rfl, nofun⟩
  | .array [name, value] :: data, bs, decoded => by
    simp only [decodeBindings, Except.bind_eq_ok_iff, Except.pure_eq_ok_iff] at decoded
    obtain ⟨x, nameAccepted, a, valueAccepted, others, tailAccepted, rfl⟩ := decoded
    obtain ⟨rfl, named⟩ := eq_string_of_decodeName nameAccepted
    obtain ⟨rfl, valueNamed⟩ := encode_of_decode valueAccepted
    obtain ⟨rfl, tailNamed⟩ := encodeBindings_of_decodeBindings tailAccepted
    exact ⟨rfl, List.forall_mem_cons.mpr ⟨named, List.forall_mem_append.mpr ⟨valueNamed, tailNamed⟩⟩⟩
  | .null :: _, _, decoded | .atom _ :: _, _, decoded | .object _ :: _, _, decoded | .array [] :: _, _, decoded
  | .array [_] :: _, _, decoded | .array (_ :: _ :: _ :: _) :: _, _, decoded => by
    simp [decodeBindings] at decoded

end

/-- A datum is accepted as the named expression it encodes and as nothing else: between the data
    that are accepted and the expressions with names, encoding is one to one and onto. -/
theorem decode_inverts_encode :
    (∀ d e, decode d = .ok e ↔ e.Named ∧ encode e = d) ∧
      Set.BijOn encode {e | e.Named} {d | ∃ e, decode d = .ok e} := by
  have inverse : ∀ d e, decode d = .ok e ↔ e.Named ∧ encode e = d := by
    intro d e
    constructor
    · intro accepted
      obtain ⟨encoded, named⟩ := encode_of_decode accepted
      exact ⟨named, encoded⟩
    · rintro ⟨named, rfl⟩
      exact decode_encode named
  refine ⟨inverse, ?_, ?_, ?_⟩
  · intro e named
    exact ⟨e, (inverse _ _).mpr ⟨named, rfl⟩⟩
  · intro a named b otherNamed same
    have first : decode (encode a) = .ok a := (inverse _ _).mpr ⟨named, rfl⟩
    have second : decode (encode a) = .ok b := (inverse _ _).mpr ⟨otherNamed, same.symm⟩
    exact Except.ok.inj (first.symm.trans second)
  · rintro d ⟨e, accepted⟩
    exact ⟨e, (inverse d e).mp accepted⟩

end Wire

end CallByValue
