import CallByValue.Atoms

/-!
# Expressions

The eleven forms of the language. Operators are kept as the glyphs they were
written with; a glyph that no operator has can be held but not evaluated.
-/

namespace CallByValue

/-- An expression. -/
inductive Expr where
  | literal (value : Atom)
  | var (name : Text)
  | binary (glyph : Text) (left right : Expr)
  | unary (glyph : Text) (operand : Expr)
  | conditional (test yes no : Expr)
  | lambda (params : List Text) (body : Expr)
  | apply (callee : Expr) (args : List Expr)
  | letIn (bindings : List (Text × Expr)) (body : Expr)
  | letRec (bindings : List (Text × Expr)) (body : Expr)
  | sequence (first : Expr) (rest : List Expr)
  | fix (functional : Expr)

namespace Expr

instance : Inhabited Expr := ⟨.var []⟩

/-- The sequence of some expressions; there has to be one at least. -/
def sequence? : List Expr → Option Expr
  | [] => none
  | first :: rest => some (.sequence first rest)

/-- The combinator that gives a functional its fixed point, applied to a functional. Under call by
    value the self-application has to wait behind a lambda; the combinator is closed, so its own
    names capture nothing. -/
def fixedPoint (functional : Expr) : Expr :=
  let x := lit "x"
  let f := lit "f"
  let v := lit "v"
  let again := Expr.apply (.apply (.var x) [.var x]) [.var v]
  let wrapper := Expr.lambda [x] (.apply (.var f) [.lambda [v] again])
  .apply (.lambda [f] (.apply wrapper [wrapper])) [functional]

mutual

/-- Structural equality, in which the literals one, one point zero and true are the same. -/
def same : Expr → Expr → Bool
  | .literal a, .literal b => a.same b
  | .var x, .var y => x = y
  | .binary g a b, .binary h c d => g = h && same a c && same b d
  | .unary g a, .unary h b => g = h && same a b
  | .conditional a b c, .conditional d e f => same a d && same b e && same c f
  | .lambda ps a, .lambda qs b => ps = qs && same a b
  | .apply f as, .apply g bs => same f g && sameAll as bs
  | .letIn bs a, .letIn cs b => sameBindings bs cs && same a b
  | .letRec bs a, .letRec cs b => sameBindings bs cs && same a b
  | .sequence a as, .sequence b bs => same a b && sameAll as bs
  | .fix a, .fix b => same a b
  | _, _ => false

/-- Equality of lists of expressions, item by item. -/
def sameAll : List Expr → List Expr → Bool
  | [], [] => true
  | a :: as, b :: bs => same a b && sameAll as bs
  | _, _ => false

/-- Equality of lists of bindings, item by item. -/
def sameBindings : List (Text × Expr) → List (Text × Expr) → Bool
  | [], [] => true
  | (x, a) :: as, (y, b) :: bs => x = y && same a b && sameBindings as bs
  | _, _ => false

end

mutual

/-- How many expressions lie around the innermost one, that one included. -/
def depth : Expr → Nat
  | .literal _ => 1
  | .var _ => 1
  | .binary _ a b => max (depth a) (depth b) + 1
  | .unary _ a => depth a + 1
  | .conditional a b c => max (depth a) (max (depth b) (depth c)) + 1
  | .lambda _ a => depth a + 1
  | .apply f as => max (depth f) (depthOfAll as) + 1
  | .letIn bs a => max (depthOfBindings bs) (depth a) + 1
  | .letRec bs a => max (depthOfBindings bs) (depth a) + 1
  | .sequence a as => max (depth a) (depthOfAll as) + 1
  | .fix a => depth a + 1

/-- The depth of the deepest expression of a list. -/
def depthOfAll : List Expr → Nat
  | [] => 0
  | a :: as => max (depth a) (depthOfAll as)

/-- The depth of the deepest expression that is bound. -/
def depthOfBindings : List (Text × Expr) → Nat
  | [] => 0
  | (_, a) :: as => max (depth a) (depthOfBindings as)

end

end Expr

end CallByValue
