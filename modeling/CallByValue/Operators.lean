import CallByValue.Failures

/-!
# Operators

The operators that have a meaning, by their glyphs. Arithmetic takes numbers
only; equality takes any two values.
-/

namespace CallByValue

/-- An operator of two operands. -/
inductive BinaryOperator where
  | add
  | sub
  | mul
  | div
  | equal
deriving DecidableEq

namespace BinaryOperator

/-- Every operator of two operands. -/
def all : List BinaryOperator := [add, sub, mul, div, equal]

/-- The glyph of an operator. -/
def glyph : BinaryOperator → Text
  | add => lit "+"
  | sub => lit "-"
  | mul => lit "*"
  | div => lit "/"
  | equal => lit "="

/-- The operator with a glyph. -/
def ofGlyph? (glyph : Text) : Option BinaryOperator := all.find? fun op => op.glyph = glyph

/-- The arithmetic of an operator; equality has none. A NaN that it makes gets the given mark. -/
def arithmetic? (mark : Nat) : BinaryOperator → Option (Number → Number → Except ArithmeticFault Number)
  | add => some (Number.add mark)
  | sub => some (Number.sub mark)
  | mul => some (Number.mul mark)
  | div => some (Number.div mark)
  | equal => none

/-- Do so many levels suffice to compare two values? A level granted stands for two frames, and each
    level of an expression takes three. -/
def canCompare (levels : Nat) (a b : Value) : Bool := decide (3 * min a.depth b.depth ≤ 2 * levels)

/-- The result of an operator. The left operand is found wanting before the right one. -/
def apply (op : BinaryOperator) (mark levels : Nat) (a b : Value) : Outcome Value :=
  match op.arithmetic? mark with
  | none => if canCompare levels a b then .success (.truth (a.sameValue b)) else .halted .stackExhausted
  | some arithmetic =>
    match a.number?, b.number? with
    | none, _ => .failure (.notANumber op.glyph a)
    | _, none => .failure (.notANumber op.glyph b)
    | some x, some y =>
      match arithmetic x y with
      | .ok n => .success (.atom (.number n))
      | .error .divisionByZero => .failure .divisionByZero
      | .error .overflow => .failure (.overflow op.glyph)

end BinaryOperator

/-- An operator of one operand. `say` does not evaluate it. -/
inductive UnaryOperator where
  | not
  | isZero
  | say
deriving DecidableEq

namespace UnaryOperator

/-- Every operator of one operand. -/
def all : List UnaryOperator := [not, isZero, say]

/-- The glyph of an operator. -/
def glyph : UnaryOperator → Text
  | not => lit "not"
  | isZero => lit "zero?"
  | say => lit "say"

/-- The operator with a glyph. -/
def ofGlyph? (glyph : Text) : Option UnaryOperator := all.find? fun op => op.glyph = glyph

end UnaryOperator

namespace Value

/-- Only exactly true is not negated to true. -/
def negated (v : Value) : Value := .truth !v.isTrue

/-- Is the value the number zero? -/
def zeroTest (v : Value) : Value :=
  .truth (match v.number? with
    | some n => n.isZero
    | none => false)

end Value

end CallByValue
