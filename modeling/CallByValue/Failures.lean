import CallByValue.Quoted
import CallByValue.Values

/-!
# Failures and outcomes

Evaluation ends in a value or in a failure, which is itself a value with a
description. Beyond both, the host may stop it.
-/

namespace CallByValue

/-- What can go wrong while an expression is evaluated. -/
inductive Failure where
  | unbound (name : Text)
  | divisionByZero
  | notCallable (value : Value)
  | unknownOperator (glyph : Text)
  | arityMismatch (expected given : Int)
  | notANumber (glyph : Text) (value : Value)
  | notAFunction (name : Text)
  | overflow (glyph : Text)

namespace Failure

/-- The name of a failure's kind. -/
def kind : Failure → Text
  | unbound _ => lit "UnboundVariable"
  | divisionByZero => lit "DivisionByZero"
  | notCallable _ => lit "NotCallable"
  | unknownOperator _ => lit "UnknownOperator"
  | arityMismatch _ _ => lit "ArityMismatch"
  | notANumber _ _ => lit "NotANumber"
  | notAFunction _ => lit "NotAFunction"
  | overflow _ => lit "NumericOverflow"

/-- What a failure says to a person. -/
def description : Failure → Text
  | unbound name => lit "There is no binding for " ++ Quoted.quote name ++ lit " in scope."
  | divisionByZero => lit "Division by zero."
  | notCallable value => lit "Tried to call " ++ value.shown ++ lit ", which is not a function."
  | unknownOperator glyph => lit "Unknown operator: " ++ glyph
  | arityMismatch expected given =>
    lit "This function takes " ++ Text.ofInt expected ++ lit (if expected = 1 then " argument" else " arguments") ++
      lit ", but got " ++ Text.ofInt given ++ lit " instead."
  | notANumber glyph value =>
    lit "Operator " ++ glyph ++ lit " needs numbers, but got " ++ value.shown ++ lit "."
  | notAFunction name => lit "Recursive binding " ++ Quoted.quote name ++ lit " must be a lambda."
  | overflow glyph => lit "The result of " ++ glyph ++ lit " is too large to represent."

/-- What stops a failure from being described within so many levels, if anything does. -/
def obstacle? (levels : Nat) : Failure → Option Halt
  | notCallable value => value.obstacle? levels
  | notANumber _ value => value.obstacle? levels
  | arityMismatch expected given => (numeralObstacle? expected).or (numeralObstacle? given)
  | _ => none

/-- What a failure says, or what stops the host from saying it. -/
def describe (levels : Nat) (failure : Failure) : Except Halt Text :=
  match failure.obstacle? levels with
  | some halt => .error halt
  | none => .ok failure.description

/-- Equality of failures of one kind, part by part. -/
def same : Failure → Failure → Bool
  | unbound x, unbound y => x = y
  | divisionByZero, divisionByZero => true
  | notCallable v, notCallable w => v.agrees w
  | unknownOperator g, unknownOperator h => g = h
  | arityMismatch a b, arityMismatch c d => a = c && b = d
  | notANumber g v, notANumber h w => g = h && v.agrees w
  | notAFunction x, notAFunction y => x = y
  | overflow g, overflow h => g = h
  | _, _ => false

end Failure

/-- How a piece of evaluation ends. -/
inductive Outcome (α : Type) where
  | success (value : α)
  | failure (error : Failure)
  | halted (reason : Halt)

end CallByValue
