import CallByValue.Escapes
import CallByValue.Limits
import CallByValue.Numbers

/-!
# Atoms

The values that a program can write down directly: booleans, numbers and text.
-/

namespace CallByValue

/-- A value without structure. -/
inductive Atom where
  | boolean (b : Bool)
  | number (n : Number)
  | text (t : Text)
deriving DecidableEq

namespace Atom

/-- The number an atom counts as when data are compared: a boolean counts as zero or one. -/
def numeric? : Atom → Option Number
  | .boolean b => some (.integer (if b then 1 else 0))
  | .number n => some n
  | .text _ => none

/-- Equality of data, in which one, one point zero and true are the same. -/
def same (a b : Atom) : Bool :=
  match a.numeric?, b.numeric? with
  | some x, some y => x.same y
  | none, none => a = b
  | _, _ => false

/-- What stops an atom from being written, if anything does. -/
def obstacle? : Atom → Option Halt
  | .number (.integer n) => numeralObstacle? n
  | _ => none

/-- The words of the surface notation for numbers that are not finite. -/
def surfaceWords : SpecialWords := ⟨lit "inf", lit "nan"⟩

/-- The atom in the surface notation. -/
def surface : Atom → Text
  | .boolean b => lit (if b then "#t" else "#f")
  | .number n => n.text surfaceWords
  | .text t => Escapes.quote t

end Atom

end CallByValue
