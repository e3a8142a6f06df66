import CallByValue.Proofs.ValueEquality
import CallByValue.Proofs.WireForms

/-!
# Equality of encodings

Expressions are the same if and only if the data that they travel as are the same,
data being compared part by part and by what their numbers denote. The tag keeps
the forms apart, so that no two of different forms are the same, be their fields
what they may.
-/

namespace CallByValue

/-! ## Atoms -/

/-- Numbers are the same if they are one and the same, or one rational number. -/
theorem Number.same_iff_rational {a b : Number} :
    a.same b = true ↔ a = b ∨ ∃ q, a.rational? = some q ∧ b.rational? = some q := by
  simp only [same, Bool.or_eq_true, decide_eq_true_eq, equals_iff_rational]
  constructor
  · rintro ((rational | ⟨negative, rfl, rfl⟩) | equal)
    · exact .inr rational
    · exact .inl rfl
    · exact .inl equal
  · rintro (equal | rational)
    · exact .inr equal
    · exact .inl (.inl rational)

namespace Atom

/-- The rational number that an atom counts as, if it counts as one. -/
def rational? (a : Atom) : Option ℚ := a.numeric?.bind Number.rational?

/-- What counts as a number that is not rational is that number. -/
theorem eq_number_of_numeric {a : Atom} {n : Number} (counts : a.numeric? = some n) (special : n.rational? = none) :
    a = .number n := by
  cases a with
  | boolean b => cases counts; cases special
  | number m => cases counts; rfl
  | text t => cases counts

/-- Atoms are the same if they are one and the same, or count as one rational number. -/
theorem same_iff {a b : Atom} : a.same b = true ↔ a = b ∨ ∃ q, a.rational? = some q ∧ b.rational? = some q := by
  constructor
  · intro same
    obtain ⟨m, n, left, right, numbers⟩ | equal := same_cases same
    · have count : a.rational? = m.rational? ∧ b.rational? = n.rational? := by simp [rational?, left, right]
      rw [count.1, count.2]
      obtain rfl | rational := Number.same_iff_rational.mp numbers
      · cases special : m.rational? with
        | none => exact .inl ((eq_number_of_numeric left special).trans (eq_number_of_numeric right special).symm)
        | some q => exact .inr ⟨q, rfl, rfl⟩
      · exact .inr rational
    · exact .inl equal
  · rintro (rfl | ⟨q, left, right⟩)
    · exact same_refl a
    · obtain ⟨m, leftCounts, leftRational⟩ := Option.bind_eq_some_iff.mp left
      obtain ⟨n, rightCounts, rightRational⟩ := Option.bind_eq_some_iff.mp right
      simp only [same, leftCounts, rightCounts]
      exact Number.same_iff_rational.mpr (.inr ⟨q, leftRational, rightRational⟩)

end Atom

/-! ## Data -/

namespace Json

mutual

/-- Equality of data, in which the atoms one, one point zero and true are the same and the members of an object
    are in no order. -/
def same : Json → Json → Bool
  | .null, .null => true
  | .atom a, .atom b => a.same b
  | .array items, .array others => sameItems items others
  | .object members, .object others => members.length = others.length && sameMembers members (.object others)
  | _, _ => false

/-- Equality of the items of arrays, item by item. -/
def sameItems : List Json → List Json → Bool
  | [], [] => true
  | item :: items, other :: others => same item other && sameItems items others
  | _, _ => false

/-- Has an object all of these members, each with the same value? -/
def sameMembers : List (Text × Json) → Json → Bool
  | [], _ => true
  | (name, value) :: members, whole =>
    (match whole.member? name with
      | some other => same value other
      | none => false) && sameMembers members whole

end

@[simp]
theorem same_string (t u : Text) : (string t).same (string u) = decide (t = u) := by
  simp [string, same, Atom.same, Atom.numeric?]

theorem sameItems_map_string (ts us : List Text) :
    sameItems (ts.map string) (us.map string) = decide (ts = us) := by
  induction ts generalizing us with
  | nil => cases us <;> simp [sameItems]
  | cons t ts ih =>
    cases us with
    | nil => simp [sameItems]
    | cons u us => simp [sameItems, ih, Bool.decide_and]

end Json

/-! ## Tags -/

/-- The form of an expression, which is the tag that it travels under. -/
def Expr.form : Expr → Tag
  | .literal _ => .literal
  | .var _ => .var
  | .binary .. => .binary
  | .unary .. => .unary
  | .conditional .. => .conditional
  | .lambda .. => .lambda
  | .apply .. => .apply
  | .letIn .. => .letIn
  | .letRec .. => .letRec
  | .sequence .. => .sequence
  | .fix _ => .fix

theorem Expr.form_eq_of_same {e f : Expr} (same : e.same f = true) : e.form = f.form := by
  cases e <;> cases f <;> simp [form, Expr.same] at same ⊢

theorem Expr.same_of_forms_ne {e f : Expr} (differ : e.form ≠ f.form) : e.same f = false :=
  Bool.eq_false_of_not_eq_true fun same => differ (form_eq_of_same same)

example (bs : List (Text × Expr)) (a : Expr) : (Expr.letIn bs a).same (.letRec bs a) = false := rfl

namespace Wire

theorem exists_fields (e : Expr) : ∃ fields, encode e = tagged e.form fields := by
  cases e <;> exact ⟨_, rfl⟩

/-- Tagged arrays are the same if their tags and their fields are. -/
theorem same_tagged (tag other : Tag) (fields others : List Json) :
    (tagged tag fields).same (tagged other others) = (decide (tag = other) && Json.sameItems fields others) := by
  simp only [tagged, Json.same, Json.sameItems, Json.same_string, Tag.word_injective.eq_iff]

theorem form_eq_of_encodings_same {e f : Expr} (same : (encode e).same (encode f) = true) : e.form = f.form := by
  obtain ⟨fields, encoded⟩ := exists_fields e
  obtain ⟨others, otherEncoded⟩ := exists_fields f
  rw [encoded, otherEncoded, same_tagged, Bool.and_eq_true, decide_eq_true_eq] at same
  exact same.1

/-! ## Encodings -/

/-- Expressions of different forms are not the same, and their encodings are not either. -/
theorem same_encode_of_forms_ne {e f : Expr} (differ : e.form ≠ f.form) : (encode e).same (encode f) = e.same f := by
  have encodings : (encode e).same (encode f) = false :=
    Bool.eq_false_of_not_eq_true fun same => differ (form_eq_of_encodings_same same)
  rw [encodings, Expr.same_of_forms_ne differ]

section

-- Makes the equations of the definitions once, before the cases that all need them.
attribute [local simp] same_tagged encode encodeAll encodeBindings Json.same Json.sameItems Expr.same Expr.sameAll
  Expr.sameBindings

-- Different forms are told apart by their tags, so that what is left is each form beside itself.
mutual

/-- Comparing encodings comes out as comparing the expressions does. -/
theorem same_encode : ∀ e f : Expr, (encode e).same (encode f) = e.same f
  | .literal a, f => by
    cases f with
    | literal b => simp
    | _ => exact same_encode_of_forms_ne nofun
  | .var x, f => by
    cases f with
    | var y => simp
    | _ => exact same_encode_of_forms_ne nofun
  | .binary g a b, f => by
    cases f with
    | binary h c d => simp [same_encode a c, same_encode b d, Bool.and_assoc]
    | _ => exact same_encode_of_forms_ne nofun
  | .unary g a, f => by
    cases f with
    | unary h b => simp [same_encode a b]
    | _ => exact same_encode_of_forms_ne nofun
  | .conditional a b c, f => by
    cases f with
    | conditional a' b' c' => simp [same_encode a a', same_encode b b', same_encode c c', Bool.and_assoc]
    | _ => exact same_encode_of_forms_ne nofun
  | .lambda ps a, f => by
    cases f with
    | lambda qs b => simp [Json.sameItems_map_string, same_encode a b]
    | _ => exact same_encode_of_forms_ne nofun
  | .apply callee as, f => by
    cases f with
    | apply other bs => simp [same_encode callee other, sameItems_encodeAll as bs]
    | _ => exact same_encode_of_forms_ne nofun
  | .letIn bs a, f => by
    cases f with
    | letIn cs b => simp [sameItems_encodeBindings bs cs, same_encode a b]
    | _ => exact same_encode_of_forms_ne nofun
  | .letRec bs a, f => by
    cases f with
    | letRec cs b => simp [sameItems_encodeBindings bs cs, same_encode a b]
    | _ => exact same_encode_of_forms_ne nofun
  | .sequence a as, f => by
    cases f with
    | sequence b bs => simp [same_encode a b, sameItems_encodeAll as bs]
    | _ => exact same_encode_of_forms_ne nofun
  | .fix a, f => by
    cases f with
    | fix b => simp [same_encode a b]
    | _ => exact same_encode_of_forms_ne nofun

theorem sameItems_encodeAll : ∀ es fs : List Expr,
    Json.sameItems (encodeAll es) (encodeAll fs) = Expr.sameAll es fs
  | [], fs => by cases fs <;> simp
  | e :: es, fs => by
    cases fs with
    | nil => simp
    | cons f fs => simp [same_encode e f, sameItems_encodeAll es fs]

theorem sameItems_encodeBindings : ∀ bs cs : List (Text × Expr),
    Json.sameItems (encodeBindings bs) (encodeBindings cs) = Expr.sameBindings bs cs
  | [], cs => by cases cs <;> simp
  | (x, e) :: bs, cs => by
    cases cs with
    | nil => simp
    | cons c cs => simp [same_encode e c.2, sameItems_encodeBindings bs cs]

end

end

end Wire

theorem Expr.same_equivalence : Equivalence fun e f : Expr => e.same f = true where
  refl := same_refl
  symm := same_symm
  trans first second := by rw [same_congr first, second]

/-- Expressions are the same if and only if the data that they travel as are. Then they are of one form; literals are
    the same if they are one and the same, or count as one rational number; and being the same is an equivalence. -/
theorem same_iff_encodings_same :
    (∀ e f : Expr, e.same f = true ↔ (Wire.encode e).same (Wire.encode f) = true) ∧
      (∀ e f : Expr, e.form ≠ f.form → e.same f = false) ∧
      (∀ a b : Atom, (Expr.literal a).same (.literal b) = true ↔
        a = b ∨ ∃ q, a.rational? = some q ∧ b.rational? = some q) ∧
      Equivalence fun e f : Expr => e.same f = true := by
  refine ⟨fun e f => ?_, fun e f => Expr.same_of_forms_ne, fun a b => ?_, Expr.same_equivalence⟩
  · rw [Wire.same_encode]
  · rw [Expr.same]
    exact Atom.same_iff

/-- One as a binary64 number. -/
def onePointZero : Binary64 := .finite false ⟨Nat.pow 2 52, 1022, by decide, by decide, .inr (by decide)⟩

/-- A binding of a name to a literal. -/
def boundTo (a : Atom) : List (Text × Expr) := [(lit "x", .literal a)]

/-- What compares that name with the NaN that programs can write down. -/
def comparedWithNaN : Expr := .binary (lit "=") (.var (lit "x")) (.literal (.number (.float (.nan 0))))

/-- Programs that bind one in each of the ways in which it can be written down travel as the same data, but not as the
    same data as a program that binds it recursively. -/
theorem same_iff_encodings_same_ones :
    let program (a : Atom) : Expr := .letIn (boundTo a) comparedWithNaN
    (Wire.encode (program (.boolean true))).same (Wire.encode (program (.number (.float onePointZero)))) = true ∧
      (program (.boolean true)).same (.letRec (boundTo (.boolean true)) comparedWithNaN) = false ∧
      (Expr.literal (.number (.float (.nan 0)))).same (.literal (.number (.float (.nan 0)))) = true := by
  intro program
  obtain ⟨encodings, forms, literals, equivalence⟩ := same_iff_encodings_same
  have whole : (program (.boolean true)).same (program (.number (.integer 1))) = true := by decide +kernel
  have point : (program (.number (.integer 1))).same (program (.number (.float onePointZero))) = true := by
    decide +kernel
  exact ⟨(encodings _ _).mp (equivalence.trans whole point), forms _ _ nofun, (literals _ _).mpr (.inl rfl)⟩

end CallByValue
