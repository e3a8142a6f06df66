/-!
# Binary64 numbers

A finite number is a whole multiple of `2 ^ -1074`, the smallest positive one.
Each operation computes the exact result as a ratio of whole numbers and rounds
it once, to the nearest number, a tie going to the even significand.
-/

namespace CallByValue

/-- A ratio rounded to the nearest whole number, a tie to the even one. -/
def roundHalfEven (num den : Nat) : Nat :=
  let quotient := num / den
  let twice := 2 * (num % den)
  if twice < den then quotient
  else if den < twice then quotient + 1
  else if quotient % 2 = 0 then quotient else quotient + 1

/-- The size of a finite number: `significand * 2 ^ scale` units of `2 ^ -1074`,
    with as small a scale as 53 bits of significand allow. -/
structure Magnitude where
  significand : Nat
  scale : Nat
  significand_lt : significand < Nat.pow 2 53
  scale_le : scale ≤ 2045
  normal : scale = 0 ∨ Nat.pow 2 52 ≤ significand
deriving DecidableEq

namespace Magnitude

/-- How many units of `2 ^ -1074` make one. -/
def unitsPerOne : Nat := Nat.pow 2 1074

/-- The size in units of `2 ^ -1074`. -/
def units (m : Magnitude) : Nat := m.significand * Nat.pow 2 m.scale

/-- The magnitude of zero. -/
def zero : Magnitude := ⟨0, 0, by decide, by decide, .inl rfl⟩

/-- The magnitude with the given parts, if they are within bounds. -/
def ofParts? (significand scale : Nat) : Option Magnitude :=
  if bounds : significand < Nat.pow 2 53 ∧ scale ≤ 2045 ∧ (scale = 0 ∨ Nat.pow 2 52 ≤ significand) then
    some ⟨significand, scale, bounds.1, bounds.2.1, bounds.2.2⟩
  else none

/-- The scale that leaves a whole number of units with at most 53 bits. -/
def scaleOf (units : Nat) : Nat := units.log2 - 52

/-- The magnitude nearest to `num / den` units; none where that is too large for a finite number. -/
def nearest? (num den : Nat) : Option Magnitude :=
  let scale := scaleOf (num / den)
  let significand := roundHalfEven num (den * Nat.pow 2 scale)
  if significand = Nat.pow 2 53 then ofParts? (Nat.pow 2 52) (scale + 1) else ofParts? significand scale

end Magnitude

/-- A number of the format. A NaN carries a mark, by which two of them are told apart. -/
inductive Binary64 where
  | finite (negative : Bool) (magnitude : Magnitude)
  | infinite (negative : Bool)
  | nan (mark : Nat)
deriving DecidableEq

namespace Binary64
open Magnitude

/-- Zero with a sign. -/
def zero (negative : Bool) : Binary64 := .finite negative .zero

/-- The number nearest to `num / den` units, infinite where that is too large. -/
def nearest (negative : Bool) (num den : Nat) : Binary64 :=
  match nearest? num den with
  | some magnitude => .finite negative magnitude
  | none => .infinite negative

/-- A number of units with its sign. -/
def signed (negative : Bool) (units : Nat) : Int := if negative then -(units : Int) else units

/-- The number nearest to an integer; none where that is too large for a finite number. -/
def ofInt? (n : Int) : Option Binary64 :=
  (nearest? (n.natAbs * unitsPerOne) 1).map (.finite (n < 0))

/-- The number nearest to the quotient of two integers, the divisor not zero; none where that is
    too large for a finite number. -/
def ofQuotient? (a b : Int) : Option Binary64 :=
  (nearest? (a.natAbs * unitsPerOne) b.natAbs).map (.finite ((a < 0) != (b < 0)))

/-- Is this zero, of either sign? -/
def isZero : Binary64 → Bool
  | .finite _ m => m.significand = 0
  | _ => false

/-- The number with the other sign. -/
def neg : Binary64 → Binary64
  | .finite negative m => .finite (!negative) m
  | .infinite negative => .infinite (!negative)
  | .nan mark => .nan mark

/-- The sum, a NaN made on the way getting the given mark. -/
def add (mark : Nat) : Binary64 → Binary64 → Binary64
  | .finite n a, .finite m b =>
    let sum := signed n a.units + signed m b.units
    if sum = 0 then zero (n && m) else nearest (sum < 0) sum.natAbs 1
  | .finite _ _, .infinite m => .infinite m
  | .infinite n, .finite _ _ => .infinite n
  | .infinite n, .infinite m => if n = m then .infinite n else .nan mark
  | _, _ => .nan mark

/-- The difference. -/
def sub (mark : Nat) (x y : Binary64) : Binary64 := add mark x y.neg

/-- The product. -/
def mul (mark : Nat) : Binary64 → Binary64 → Binary64
  | .finite n a, .finite m b => nearest (n != m) (a.units * b.units) unitsPerOne
  | .finite n a, .infinite m => if a.significand = 0 then .nan mark else .infinite (n != m)
  | .infinite n, .finite m b => if b.significand = 0 then .nan mark else .infinite (n != m)
  | .infinite n, .infinite m => .infinite (n != m)
  | _, _ => .nan mark

/-- The quotient. -/
def div (mark : Nat) : Binary64 → Binary64 → Binary64
  | .finite n a, .finite m b =>
    if b.significand = 0 then if a.significand = 0 then .nan mark else .infinite (n != m)
    else nearest (n != m) (a.units * unitsPerOne) b.units
  | .finite n _, .infinite m => zero (n != m)
  | .infinite n, .finite m _ => .infinite (n != m)
  | _, _ => .nan mark

/-- Equality of the numbers denoted: the two zeros are equal, a NaN equals nothing. -/
def equals : Binary64 → Binary64 → Bool
  | .finite n a, .finite m b => signed n a.units = signed m b.units
  | .infinite n, .infinite m => n = m
  | _, _ => false

/-- Equality with an integer, by the exact values. -/
def equalsInt : Binary64 → Int → Bool
  | .finite negative m, n => signed negative m.units = n * unitsPerOne
  | _, _ => false

end Binary64

end CallByValue
