import CallByValue.Proofs.Encodability
import CallByValue.Proofs.Legibility
import CallByValue.Proofs.SurfaceWords

/-!
# Programs are known from their texts

Each form of expression has a tree of its own: what stands first in parentheses is
the keyword or the glyph of a form, or else the callee of an application. So an
expression with names that mean nothing else can be read back from its surface
text, however deep it is nested and whatever its strings hold.
-/

namespace CallByValue

/-! ## Names -/

/-- The keywords and the glyphs, each with the form that it announces. -/
def Tag.headings : List (Text × Tag) :=
  BinaryOperator.all.map (fun op => (op.glyph, .binary)) ++ UnaryOperator.all.map (fun op => (op.glyph, .unary)) ++
    [(lit "if", .conditional), (lit "lambda", .lambda), (lit "let", .letIn), (lit "letrec", .letRec),
      (lit "begin", .sequence), (lit "fix", .fix)]

/-- A word that can only be a name: no keyword, no glyph, and not how a boolean or a number is written. -/
structure Text.IsName (x : Text) : Prop where
  word : x.IsWord
  unreserved : ∀ heading ∈ Tag.headings, heading.1 ≠ x
  noLiteral : ∀ a : Atom, (∀ t, a ≠ .text t) → a.obstacle? = none → a.surface ≠ x

/-- What neither is listed nor begins like a numeral is no literal. -/
theorem Text.isName_of_unlisted {x : Text} (word : x.IsWord) (unreserved : ∀ heading ∈ Tag.headings, heading.1 ≠ x)
    (noNumeral : ¬ JsonToken.StartsNumeral x) (unlisted : ∀ entry ∈ Atom.named, entry.2 ≠ x) : x.IsName where
  word := word
  unreserved := unreserved
  noLiteral := fun _ wordy _ => Atom.surface_ne wordy noNumeral unlisted

/-- A text without surrogates has no halves to join. -/
theorem Text.Encodable.joined {t : Text} (encodable : t.Encodable) : t.Joined := by
  refine (List.pairwise_of_forall_mem_list fun a _ b member _ low => ?_).isChain
  exact encodable b member ⟨by have := low.1; omega, low.2⟩

/-- What is in parentheses is of the form that its first word announces, or else an application. -/
def Tree.tag? : Tree → Option Tag
  | .group (.word w :: _) => some (((Tag.headings.find? fun heading => heading.1 = w).map (·.2)).getD .apply)
  | .group _ => some .apply
  | _ => none

theorem Tree.Sound.headed {w : Text} (word : w.IsWord) {items : List Tree} (sound : ∀ item ∈ items, item.Sound) :
    (Tree.group (.word w :: items)).Sound :=
  .group (List.forall_mem_cons.mpr ⟨.word word, sound⟩)

namespace Expr

/-- An expression with known glyphs and with names that are nothing else, whose strings can be encoded. -/
inductive Legible : Expr → Prop
  | literal {a} (encodable : ∀ t, a = .text t → Text.Encodable t) : Legible (.literal a)
  | var {x} (name : x.IsName) : Legible (.var x)
  | binary (op : BinaryOperator) {a b} (left : Legible a) (right : Legible b) : Legible (.binary op.glyph a b)
  | unary (op : UnaryOperator) {a} (operand : Legible a) : Legible (.unary op.glyph a)
  | conditional {a b c} (test : Legible a) (yes : Legible b) (no : Legible c) : Legible (.conditional a b c)
  | lambda {ps a} (params : ∀ p ∈ ps, Text.IsName p) (body : Legible a) : Legible (.lambda ps a)
  | apply {f as} (callee : Legible f) (args : ∀ a ∈ as, Legible a) : Legible (.apply f as)
  | letIn {bs a} (names : ∀ b ∈ bs, Text.IsName b.1) (bound : ∀ b ∈ bs, Legible b.2) (body : Legible a) :
      Legible (.letIn bs a)
  | letRec {bs a} (names : ∀ b ∈ bs, Text.IsName b.1) (bound : ∀ b ∈ bs, Legible b.2) (body : Legible a) :
      Legible (.letRec bs a)
  | sequence {a as} (first : Legible a) (rest : ∀ a ∈ as, Legible a) : Legible (.sequence a as)
  | fix {a} (functional : Legible a) : Legible (.fix a)

/-! ## Trees of expressions -/

mutual

/-- The tree of an expression. -/
def tree : Expr → Tree
  | .literal (.text t) => .string t
  | .literal a => .word a.surface
  | .var x => .word x
  | .binary g a b => .group [.word g, tree a, tree b]
  | .unary g a => .group [.word g, tree a]
  | .conditional a b c => .group [.word (lit "if"), tree a, tree b, tree c]
  | .lambda ps a => .group [.word (lit "lambda"), .group (ps.map .word), tree a]
  | .apply f as => .group (tree f :: trees as)
  | .letIn bs a => .group [.word (lit "let"), .group (clauseTrees bs), tree a]
  | .letRec bs a => .group [.word (lit "letrec"), .group (clauseTrees bs), tree a]
  | .sequence a as => .group (.word (lit "begin") :: tree a :: trees as)
  | .fix a => .group [.word (lit "fix"), tree a]

/-- The trees of some expressions. -/
def trees : List Expr → List Tree
  | [] => []
  | a :: as => tree a :: trees as

/-- The trees of some bindings. -/
def clauseTrees : List (Text × Expr) → List Tree
  | [] => []
  | (x, a) :: bs => .group [.word x, tree a] :: clauseTrees bs

end

theorem trees_eq_map (es : List Expr) : trees es = es.map tree := by
  induction es with
  | nil => rfl
  | cons e es ih => rw [trees, ih, List.map_cons]

theorem clauseTrees_eq_map (bs : List (Text × Expr)) :
    clauseTrees bs = bs.map fun b => .group [.word b.1, b.2.tree] := by
  induction bs with
  | nil => rfl
  | cons b bs ih => rw [clauseTrees, ih, List.map_cons]

/-- A literal that is not text is a word. -/
theorem tree_literal {a : Atom} (wordy : ∀ t, a ≠ .text t) : (literal a).tree = .word a.surface := by
  cases a with
  | text t => exact absurd rfl (wordy t)
  | _ => rfl

theorem text_clauseTrees {bs : List (Text × Expr)} (same : ∀ b ∈ bs, b.2.tree.text = b.2.text) :
    (clauseTrees bs).map Tree.text = clauses bs := by
  rw [clauseTrees_eq_map, clauses_eq_map, List.map_map]
  refine List.map_congr_left fun b member => ?_
  simp [same b member]

theorem text_trees {es : List Expr} (same : ∀ e ∈ es, e.tree.text = e.text) : (trees es).map Tree.text = texts es := by
  rw [trees_eq_map, texts_eq_map, List.map_map]
  exact List.map_congr_left same

theorem Legible.text_tree {e : Expr} (legible : e.Legible) : e.tree.text = e.text := by
  have words (ps : List Text) : (ps.map Tree.word).map Tree.text = ps := by
    rw [List.map_map]
    exact List.map_id ps
  induction legible with
  | @literal a => cases a <;> rfl
  | var => rfl
  | lambda params _ body => simp [tree, Expr.text, words, body]
  | apply _ _ callee args => simp [tree, Expr.text, callee, text_trees args]
  | sequence _ _ first rest => simp [tree, Expr.text, first, text_trees rest]
  | letIn _ _ _ bound body => simp [tree, Expr.text, text_clauseTrees bound, body]
  | letRec _ _ _ bound body => simp [tree, Expr.text, text_clauseTrees bound, body]
  | binary _ _ _ left right => simp [tree, Expr.text, left, right]
  | unary _ _ operand => simp [tree, Expr.text, operand]
  | conditional _ _ _ test yes no => simp [tree, Expr.text, test, yes, no]
  | fix _ functional => simp [tree, Expr.text, functional]

theorem sound_clauseTrees {bs : List (Text × Expr)} (names : ∀ b ∈ bs, Text.IsName b.1)
    (sound : ∀ b ∈ bs, b.2.tree.Sound) : (Tree.group (clauseTrees bs)).Sound := by
  refine .group fun clause member => ?_
  rw [clauseTrees_eq_map] at member
  obtain ⟨b, listed, rfl⟩ := List.mem_map.mp member
  exact .headed (names b listed).word (by simpa using sound b listed)

theorem sound_trees {es : List Expr} (sound : ∀ e ∈ es, e.tree.Sound) : ∀ t ∈ trees es, t.Sound := by
  rw [trees_eq_map]
  exact List.forall_mem_map.mpr sound

theorem Legible.sound_tree {e : Expr} (legible : e.Legible) : e.tree.Sound := by
  induction legible with
  | @literal a encodable =>
    obtain ⟨t, rfl⟩ | wordy := a.isText_or_wordy
    · exact .string (encodable t rfl).joined
    · exact tree_literal wordy ▸ .word (Atom.isWord_surface wordy)
  | var name => exact .word name.word
  | binary op _ _ left right =>
    have glyph : op.glyph.IsWord := by cases op <;> decide
    exact .headed glyph (by simp [left, right])
  | unary op _ operand =>
    have glyph : op.glyph.IsWord := by cases op <;> decide
    exact .headed glyph (by simpa using operand)
  | conditional _ _ _ test yes no => exact .headed (by decide) (by simp [test, yes, no])
  | lambda params _ body =>
    have names : (Tree.group (List.map Tree.word _)).Sound :=
      .group (List.forall_mem_map.mpr fun p member => .word (params p member).word)
    exact .headed (by decide) (by simp [names, body])
  | apply _ _ callee args => exact .group (List.forall_mem_cons.mpr ⟨callee, sound_trees args⟩)
  | letIn names _ _ bound body => exact .headed (by decide) (by simp [sound_clauseTrees names bound, body])
  | letRec names _ _ bound body => exact .headed (by decide) (by simp [sound_clauseTrees names bound, body])
  | sequence _ _ first rest => exact .headed (by decide) (List.forall_mem_cons.mpr ⟨first, sound_trees rest⟩)
  | fix _ functional => exact .headed (by decide) (by simpa using functional)

/-! ## The form of a tree -/

/-- The form of an expression in parentheses. -/
def tag? : Expr → Option Tag
  | .literal _ | .var _ => none
  | .binary .. => some .binary
  | .unary .. => some .unary
  | .conditional .. => some .conditional
  | .lambda .. => some .lambda
  | .apply .. => some .apply
  | .letIn .. => some .letIn
  | .letRec .. => some .letRec
  | .sequence .. => some .sequence
  | .fix _ => some .fix

/-- A callee is no keyword and no glyph. -/
theorem Legible.tag?_apply {f : Expr} (callee : f.Legible) (items : List Tree) :
    (Tree.group (f.tree :: items)).tag? = some .apply := by
  have other {w : Text} (unreserved : ∀ heading ∈ Tag.headings, heading.1 ≠ w) :
      (Tree.group (.word w :: items)).tag? = some .apply := by
    have none : Tag.headings.find? (fun heading => heading.1 = w) = none := by simpa using unreserved
    rw [Tree.tag?, none]
    rfl
  cases callee with
  | @literal a =>
    obtain ⟨t, rfl⟩ | wordy := a.isText_or_wordy
    · rfl
    · have unnamed : ∀ heading ∈ Tag.headings, ¬ JsonToken.StartsNumeral heading.1 ∧
          ∀ entry ∈ Atom.named, entry.2 ≠ heading.1 := by decide
      rw [tree_literal wordy]
      refine other fun heading listed => ?_
      obtain ⟨noNumeral, unlisted⟩ := unnamed heading listed
      exact (Atom.surface_ne wordy noNumeral unlisted).symm
  | var name => exact other name.unreserved
  | _ => rfl

theorem Legible.tag?_tree {e : Expr} (legible : e.Legible) : e.tree.tag? = e.tag? := by
  cases legible with
  | @literal a => cases a <;> rfl
  | binary op => cases op <;> rfl
  | unary op => cases op <;> rfl
  | apply callee args => exact callee.tag?_apply _
  | _ => rfl

/-! ## Reading -/

mutual

/-- An expression in which no NaN has a mark. -/
def unmarked : Expr → Expr
  | .literal a => .literal a.unmarked
  | .var x => .var x
  | .binary g a b => .binary g (unmarked a) (unmarked b)
  | .unary g a => .unary g (unmarked a)
  | .conditional a b c => .conditional (unmarked a) (unmarked b) (unmarked c)
  | .lambda ps a => .lambda ps (unmarked a)
  | .apply f as => .apply (unmarked f) (unmarkedAll as)
  | .letIn bs a => .letIn (unmarkedBindings bs) (unmarked a)
  | .letRec bs a => .letRec (unmarkedBindings bs) (unmarked a)
  | .sequence a as => .sequence (unmarked a) (unmarkedAll as)
  | .fix a => .fix (unmarked a)

/-- The expressions of a list without marks. -/
def unmarkedAll : List Expr → List Expr
  | [] => []
  | a :: as => unmarked a :: unmarkedAll as

/-- The bindings of a list without marks. -/
def unmarkedBindings : List (Text × Expr) → List (Text × Expr)
  | [] => []
  | (x, a) :: bs => (x, unmarked a) :: unmarkedBindings bs

end

theorem unmarkedAll_eq_map (es : List Expr) : unmarkedAll es = es.map unmarked := by
  induction es with
  | nil => rfl
  | cons e es ih => rw [unmarkedAll, ih, List.map_cons]

theorem unmarkedBindings_eq_map (bs : List (Text × Expr)) :
    unmarkedBindings bs = bs.map fun b => (b.1, b.2.unmarked) := by
  induction bs with
  | nil => rfl
  | cons b bs ih => rw [unmarkedBindings, ih, List.map_cons]

/-- Some number of levels suffices to write the expression. -/
def Written (e : Expr) : Prop := ∃ levels, e.obstacle? levels = none

theorem written_of_render {levels : Nat} {e : Expr} {t : Text} (written : e.render levels = .ok t) : e.Written := by
  unfold render at written
  split at written
  · cases written
  · next free => exact ⟨levels, free⟩

theorem Written.obstacle?_literal {a : Atom} (written : (literal a).Written) : a.obstacle? = none := by
  obtain ⟨levels, free⟩ := written
  exact (obstacleWithin?_eq_none_iff.mp free).2.1

theorem Written.child {e part : Expr} (written : e.Written) (member : part ∈ e.children) : part.Written := by
  obtain ⟨levels, free⟩ := written
  exact ⟨levels, obstacle?_of_mem_children free member⟩

/-- Lists that one function does not tell apart are not told apart by another that sees no more. -/
theorem map_eq_map_of_eq {α β γ : Type} {f : α → β} {g : α → γ} {as bs : List α} (same : as.map f = bs.map f)
    (known : ∀ a ∈ as, ∀ b ∈ bs, f a = f b → g a = g b) : as.map g = bs.map g := by
  induction as generalizing bs with
  | nil =>
    cases bs with
    | nil => rfl
    | cons b bs => cases same
  | cons a as ih =>
    cases bs with
    | nil => cases same
    | cons b bs =>
      obtain ⟨first, rest⟩ := List.cons.inj same
      have here := known a List.mem_cons_self b List.mem_cons_self first
      have there := ih rest fun a member b other =>
        known a (List.mem_cons_of_mem _ member) b (List.mem_cons_of_mem _ other)
      rw [List.map_cons, List.map_cons, here, there]

/-- Equal trees are of one form. -/
theorem Legible.tag?_eq {e f : Expr} (first : e.Legible) (second : f.Legible) (same : e.tree = f.tree) :
    e.tag? = f.tag? := by
  rw [← first.tag?_tree, ← second.tag?_tree, same]

theorem unmarked_eq_of_tree_literal {a b : Atom} (same : (literal a).tree = (literal b).tree) :
    a.unmarked = b.unmarked := by
  cases a with
  | text s =>
    cases b with
    | text t => rw [Tree.string.inj same]
    | _ => cases same
  | _ =>
    cases b with
    | text t => cases same
    | _ => exact Atom.unmarked_eq_of_surface (by simp) (by simp) (Tree.word.inj same)

/-- A literal that can be written does not look like a name. -/
theorem tree_literal_ne {a : Atom} (written : (literal a).Written) {x : Text} (name : x.IsName) :
    (literal a).tree ≠ .word x := by
  intro same
  cases a with
  | text t => cases same
  | _ => exact name.noLiteral _ (by simp) written.obstacle?_literal (Tree.word.inj same)

/-- The expression is known from its tree, but for marks. -/
def Known (e : Expr) : Prop :=
  ∀ {f : Expr}, f.Legible → e.Written → f.Written → e.tree = f.tree → e.unmarked = f.unmarked

section
variable {e f : Expr} (written : e.Written) (other : f.Written)
include written other

theorem Known.inside {a b : Expr} (known : a.Known) (legible : b.Legible) (same : a.tree = b.tree)
    (part : a ∈ e.children) (otherPart : b ∈ f.children) : a.unmarked = b.unmarked :=
  known legible (written.child part) (other.child otherPart) same

theorem unmarkedAll_eq {as bs : List Expr} (known : ∀ a ∈ as, a.Known) (legible : ∀ b ∈ bs, b.Legible)
    (same : trees as = trees bs) (parts : as ⊆ e.children) (otherParts : bs ⊆ f.children) :
    unmarkedAll as = unmarkedAll bs := by
  rw [trees_eq_map, trees_eq_map] at same
  rw [unmarkedAll_eq_map, unmarkedAll_eq_map]
  exact map_eq_map_of_eq same fun a here b there trees =>
    Known.inside written other (known a here) (legible b there) trees (parts here) (otherParts there)

theorem unmarkedBindings_eq {bs cs : List (Text × Expr)} (known : ∀ b ∈ bs, b.2.Known)
    (legible : ∀ c ∈ cs, c.2.Legible) (same : clauseTrees bs = clauseTrees cs)
    (parts : bs.map (·.2) ⊆ e.children) (otherParts : cs.map (·.2) ⊆ f.children) :
    unmarkedBindings bs = unmarkedBindings cs := by
  rw [clauseTrees_eq_map, clauseTrees_eq_map] at same
  rw [unmarkedBindings_eq_map, unmarkedBindings_eq_map]
  refine map_eq_map_of_eq same fun b here c there clauses => ?_
  simp only [Tree.group.injEq, List.cons.injEq, Tree.word.injEq, and_true] at clauses
  have bound := Known.inside written other (known b here) (legible c there) clauses.2
    (parts (List.mem_map_of_mem here)) (otherParts (List.mem_map_of_mem there))
  rw [clauses.1, bound]

end

theorem Legible.known {e : Expr} (legible : e.Legible) : e.Known := by
  -- The other expression has the same form, as the trees tell, and its parts have the trees of these parts. Only
  -- a literal and a name have no form in parentheses to be told apart by.
  induction legible with
  | @literal a encodable =>
    intro f second written other same
    have kind := (literal encodable).tag?_eq second same
    cases second with
    | literal => rw [unmarked, unmarked, unmarked_eq_of_tree_literal same]
    | var name => exact absurd same (tree_literal_ne written name)
    | _ => cases kind
  | var name =>
    intro f second written other same
    have kind := (var name).tag?_eq second same
    cases second with
    | literal => exact absurd same.symm (tree_literal_ne other name)
    | var => rw [Tree.word.inj same]
    | _ => cases kind
  | binary op left right leftKnown rightKnown =>
    intro f second written other same
    have kind := (binary op left right).tag?_eq second same
    cases second with
    | binary op' left' right' =>
      simp only [tree, Tree.group.injEq, List.cons.injEq, Tree.word.injEq, and_true] at same
      obtain ⟨glyph, first, last⟩ := same
      have operand := leftKnown.inside written other left' first (by simp [children]) (by simp [children])
      have further := rightKnown.inside written other right' last (by simp [children]) (by simp [children])
      rw [unmarked, unmarked, glyph, operand, further]
    | _ => cases kind
  | unary op operand operandKnown =>
    intro f second written other same
    have kind := (unary op operand).tag?_eq second same
    cases second with
    | unary op' operand' =>
      simp only [tree, Tree.group.injEq, List.cons.injEq, Tree.word.injEq, and_true] at same
      obtain ⟨glyph, trees⟩ := same
      have inner := operandKnown.inside written other operand' trees (by simp [children]) (by simp [children])
      rw [unmarked, unmarked, glyph, inner]
    | _ => cases kind
  | conditional test yes no testKnown yesKnown noKnown =>
    intro f second written other same
    have kind := (conditional test yes no).tag?_eq second same
    cases second with
    | conditional test' yes' no' =>
      simp only [tree, Tree.group.injEq, List.cons.injEq, and_true, true_and] at same
      obtain ⟨tests, yeses, noes⟩ := same
      have tested := testKnown.inside written other test' tests (by simp [children]) (by simp [children])
      have first := yesKnown.inside written other yes' yeses (by simp [children]) (by simp [children])
      have second := noKnown.inside written other no' noes (by simp [children]) (by simp [children])
      rw [unmarked, unmarked, tested, first, second]
    | _ => cases kind
  | lambda params body bodyKnown =>
    intro f second written other same
    have kind := (lambda params body).tag?_eq second same
    cases second with
    | lambda params' body' =>
      simp only [tree, Tree.group.injEq, List.cons.injEq, and_true, true_and] at same
      obtain ⟨names, trees⟩ := same
      have inner := bodyKnown.inside written other body' trees (by simp [children]) (by simp [children])
      rw [unmarked, unmarked, List.map_injective_iff.mpr (fun _ _ => Tree.word.inj) names, inner]
    | _ => cases kind
  | apply callee args calleeKnown argsKnown =>
    intro f second written other same
    have kind := (apply callee args).tag?_eq second same
    cases second with
    | apply callee' args' =>
      obtain ⟨first, rest⟩ := List.cons.inj (Tree.group.inj same)
      have called := calleeKnown.inside written other callee' first (by simp [children]) (by simp [children])
      have given := unmarkedAll_eq written other argsKnown args' rest (by simp [children]) (by simp [children])
      rw [unmarked, unmarked, called, given]
    | _ => cases kind
  | letIn names bound body boundKnown bodyKnown =>
    intro f second written other same
    have kind := (letIn names bound body).tag?_eq second same
    cases second with
    | letIn names' bound' body' =>
      simp only [tree, Tree.group.injEq, List.cons.injEq, and_true, true_and] at same
      obtain ⟨clauses, trees⟩ := same
      have values :=
        unmarkedBindings_eq written other boundKnown bound' clauses (by simp [children]) (by simp [children])
      have inner := bodyKnown.inside written other body' trees (by simp [children]) (by simp [children])
      rw [unmarked, unmarked, values, inner]
    | _ => cases kind
  | letRec names bound body boundKnown bodyKnown =>
    intro f second written other same
    have kind := (letRec names bound body).tag?_eq second same
    cases second with
    | letRec names' bound' body' =>
      simp only [tree, Tree.group.injEq, List.cons.injEq, and_true, true_and] at same
      obtain ⟨clauses, trees⟩ := same
      have values :=
        unmarkedBindings_eq written other boundKnown bound' clauses (by simp [children]) (by simp [children])
      have inner := bodyKnown.inside written other body' trees (by simp [children]) (by simp [children])
      rw [unmarked, unmarked, values, inner]
    | _ => cases kind
  | sequence first rest firstKnown restKnown =>
    intro f second written other same
    have kind := (sequence first rest).tag?_eq second same
    cases second with
    | sequence first' rest' =>
      simp only [tree, Tree.group.injEq, List.cons.injEq, true_and] at same
      obtain ⟨head, tail⟩ := same
      have leading := firstKnown.inside written other first' head (by simp [children]) (by simp [children])
      have others := unmarkedAll_eq written other restKnown rest' tail (by simp [children]) (by simp [children])
      rw [unmarked, unmarked, leading, others]
    | _ => cases kind
  | fix functional functionalKnown =>
    intro f second written other same
    have kind := (fix functional).tag?_eq second same
    cases second with
    | fix functional' =>
      simp only [tree, Tree.group.injEq, List.cons.injEq, and_true, true_and] at same
      have inner := functionalKnown.inside written other functional' same (by simp [children]) (by simp [children])
      rw [unmarked, unmarked, inner]
    | _ => cases kind

/-! ## Numbers apart from NaN -/

/-- No literal in the expression is a NaN. -/
def WithoutNaN (e : Expr) : Prop := ∀ mark, Atom.number (.float (.nan mark)) ∉ (Wire.encode e).atoms

theorem WithoutNaN.child {e part : Expr} (free : e.WithoutNaN) (member : part ∈ e.children) : part.WithoutNaN :=
  fun mark present => free mark (Wire.atoms_subset_of_mem_children member present)

theorem WithoutNaN.unmarked_literal {a : Atom} (free : (literal a).WithoutNaN) : a.unmarked = a := by
  cases a with
  | number n =>
    cases n with
    | integer k => rfl
    | float x =>
      cases x with
      | nan mark => exact absurd (by simp [Wire.encode, Wire.tagged, Json.atoms, Json.atomsOfItems]) (free mark)
      | _ => rfl
  | _ => rfl

theorem unmarkedAll_eq_self {es : List Expr} (same : ∀ e ∈ es, e.unmarked = e) : unmarkedAll es = es := by
  have items : ∀ e ∈ es, e.unmarked = id e := same
  rw [unmarkedAll_eq_map, List.map_congr_left items, List.map_id]

theorem unmarkedBindings_eq_self {bs : List (Text × Expr)} (same : ∀ b ∈ bs, b.2.unmarked = b.2) :
    unmarkedBindings bs = bs := by
  have pairs : ∀ b ∈ bs, (b.1, b.2.unmarked) = id b := fun b member => Prod.ext rfl (same b member)
  rw [unmarkedBindings_eq_map, List.map_congr_left pairs, List.map_id]

/-- There is nothing to leave out of an expression without NaNs. -/
theorem Legible.unmarked_eq_self {e : Expr} (legible : e.Legible) (free : e.WithoutNaN) : e.unmarked = e := by
  induction legible with
  | literal => rw [unmarked, free.unmarked_literal]
  | var => rfl
  | binary op _ _ left right =>
    rw [unmarked, left (free.child (by simp [children])), right (free.child (by simp [children]))]
  | unary op _ operand => rw [unmarked, operand (free.child (by simp [children]))]
  | conditional _ _ _ test yes no =>
    rw [unmarked, test (free.child (by simp [children])), yes (free.child (by simp [children])),
      no (free.child (by simp [children]))]
  | lambda _ _ body => rw [unmarked, body (free.child (by simp [children]))]
  | apply _ _ callee args =>
    have given := unmarkedAll_eq_self fun a member => args a member (free.child (List.mem_cons_of_mem _ member))
    rw [unmarked, callee (free.child (by simp [children])), given]
  | letIn _ _ _ bound body =>
    have values := unmarkedBindings_eq_self fun b member =>
      bound b member (free.child (List.mem_append_left _ (List.mem_map_of_mem member)))
    rw [unmarked, values, body (free.child (by simp [children]))]
  | letRec _ _ _ bound body =>
    have values := unmarkedBindings_eq_self fun b member =>
      bound b member (free.child (List.mem_append_left _ (List.mem_map_of_mem member)))
    rw [unmarked, values, body (free.child (by simp [children]))]
  | sequence _ _ first rest =>
    have others := unmarkedAll_eq_self fun a member => rest a member (free.child (List.mem_cons_of_mem _ member))
    rw [unmarked, first (free.child (by simp [children])), others]
  | fix _ functional => rw [unmarked, functional (free.child (by simp [children]))]

/-- A legible expression is known from its text, but for the marks of NaNs. -/
theorem render_injective {e f : Expr} (legible : e.Legible) (other : f.Legible) {levels otherLevels : Nat} {t : Text}
    (written : e.render levels = .ok t) (same : f.render otherLevels = .ok t) :
    e.unmarked = f.unmarked ∧ (e.WithoutNaN → f.WithoutNaN → e = f) := by
  have texts : e.tree.text ++ [] = f.tree.text ++ [] := by
    rw [legible.text_tree, other.text_tree, text_eq_of_render written, text_eq_of_render same]
  have ends : Tree.Stops [] := fun c => by simp
  have trees : e.tree = f.tree := (legible.sound_tree.unique other.sound_tree ends ends texts).1
  have marks := legible.known other (written_of_render written) (written_of_render same) trees
  refine ⟨marks, fun free others => ?_⟩
  rw [← legible.unmarked_eq_self free, marks, other.unmarked_eq_self others]

/-- A call with a string that looks like the end of one, and with another literal. -/
def puzzling (a : Atom) : Expr :=
  .apply (.var (lit "f")) [.literal (.text (lit "a) (\"")), .literal a]

theorem legible_puzzling {a : Atom} (wordy : ∀ t, a ≠ .text t) : (puzzling a).Legible := by
  have name : (lit "f").IsName := Text.isName_of_unlisted (by decide) (by decide) (by decide) (by decide)
  have string : (literal (.text (lit "a) (\""))).Legible := .literal fun t same => by
    cases same
    exact Text.encodable_lit _
  have other : (literal a).Legible := .literal fun t same => absurd same (wordy t)
  exact .apply (.var name) (by simp [string, other])

theorem render_injective_puzzling :
    (puzzling (.number (.float (.nan 0)))).render 5 = .ok (lit "(f \"a) (\\\"\" nan)") ∧
      (puzzling (.number (.float (.nan 1)))).render 6 = .ok (lit "(f \"a) (\\\"\" nan)") ∧
      (puzzling (.number (.float (.nan 0)))).unmarked = (puzzling (.number (.float (.nan 1)))).unmarked ∧
      (puzzling (.boolean true)).WithoutNaN ∧ puzzling (.boolean true) = puzzling (.boolean true) := by
  have first : (puzzling (.number (.float (.nan 0)))).render 5 = .ok (lit "(f \"a) (\\\"\" nan)") := rfl
  have second : (puzzling (.number (.float (.nan 1)))).render 6 = .ok (lit "(f \"a) (\\\"\" nan)") := rfl
  have third : (puzzling (.boolean true)).render 5 = .ok (puzzling (.boolean true)).text := rfl
  have free : (puzzling (.boolean true)).WithoutNaN := fun mark => by
    simp [puzzling, Wire.encode, Wire.tagged, Wire.encodeAll, Json.atoms, Json.atomsOfItems, Json.string]
  have marks := render_injective (legible_puzzling (by simp)) (legible_puzzling (by simp)) first second
  have whole := render_injective (legible_puzzling (by simp)) (legible_puzzling (by simp)) third third
  exact ⟨first, second, marks.1, free, whole.2 free free⟩

end Expr

end CallByValue
