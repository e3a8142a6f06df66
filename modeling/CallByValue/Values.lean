import CallByValue.Surface
import CallByValue.Table

/-!
# Values

What evaluation yields: atoms, closures and quoted expressions. A closure holds
the environment in which its lambda stood; two closures are equal only over the
very same frame.
-/

namespace CallByValue

/-- An environment: its frames by number, the innermost first. No two frames share a number, so the
    number of the innermost one tells environments apart. -/
abbrev Env := List Nat

/-- A lambda with the environment in which it stood. -/
structure Closure where
  params : List Text
  body : Expr
  env : Env

/-- A value. -/
inductive Value where
  | atom (a : Atom)
  | closure (c : Closure)
  | quoted (e : Expr)

namespace Closure

/-- How many arguments a call has to give. -/
def arity (c : Closure) : Nat := c.params.length

/-- The same lambda over the very same frame. -/
def same (c d : Closure) : Bool := c.params = d.params && c.body.same d.body && c.env = d.env

/-- A closure for people who look into the evaluator. -/
def inspection (c : Closure) : Text := lit "<Closure " ++ Expr.parenthesized c.params ++ lit ">"

end Closure

namespace Value

/-- A text as a value. -/
def text (t : Text) : Value := .atom (.text t)

/-- A truth value. -/
def truth (b : Bool) : Value := .atom (.boolean b)

/-- The number that a value is. A boolean is none. -/
def number? : Value → Option Number
  | .atom (.number n) => some n
  | _ => none

/-- Is the value exactly true? -/
def isTrue : Value → Bool
  | .atom (.boolean b) => b
  | _ => false

/-- Equality in the language: numbers by what they denote, everything else only within its own kind. -/
def sameValue : Value → Value → Bool
  | .atom (.number x), .atom (.number y) => x.equals y
  | .atom (.boolean x), .atom (.boolean y) => x = y
  | .atom (.text x), .atom (.text y) => x = y
  | .closure c, .closure d => c.same d
  | .quoted e, .quoted f => e.same f
  | _, _ => false

/-- Equality of data, as between the entries of frames: one, one point zero and true are the same,
    and so are two occurrences of one NaN. -/
def agrees : Value → Value → Bool
  | .atom a, .atom b => a.same b
  | .closure c, .closure d => c.same d
  | .quoted e, .quoted f => e.same f
  | _, _ => false

/-- How deep an expression inside a value goes. -/
def depth : Value → Nat
  | .atom _ => 0
  | .closure c => c.body.depth
  | .quoted e => e.depth

/-- How a value is shown. A quoted expression has a tick before it. -/
def shown : Value → Text
  | .atom a => a.surface
  | .closure c => lit "#<closure " ++ Expr.parenthesized c.params ++ lit ">"
  | .quoted e => lit "'" ++ e.text

/-- What stops a value from being shown within so many levels, if anything does. -/
def obstacle? (levels : Nat) : Value → Option Halt
  | .atom a => a.obstacle?
  | .closure _ => none
  | .quoted e => e.obstacle? levels

/-- How a value is shown, or what stops the host from showing it. -/
def render (levels : Nat) (v : Value) : Except Halt Text :=
  match v.obstacle? levels with
  | some halt => .error halt
  | none => .ok v.shown

end Value

end CallByValue
