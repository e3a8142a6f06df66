import CallByValue.Binary64
import CallByValue.Text

/-!
# Decimal text of binary64 numbers

Reading rounds a decimal to the nearest number. Writing takes the fewest digits
that read back as the same number, and of those the decimal nearest to it.
-/

namespace CallByValue

/-- The decimal `digits * 10 ^ exponent`. -/
structure Decimal where
  digits : Nat
  exponent : Int
deriving DecidableEq

namespace Decimal
open Magnitude

/-- The numerator, in units of `2 ^ -1074`, and the denominator of a decimal. -/
def ratio (d : Decimal) : Nat × Nat :=
  if 0 ≤ d.exponent then (d.digits * Nat.pow 10 d.exponent.toNat * unitsPerOne, 1)
  else (d.digits * unitsPerOne, Nat.pow 10 (-d.exponent).toNat)

/-- The magnitude nearest to a decimal; none where that is too large for a finite number.
    An exponent far out of range settles the answer before any power of ten is taken. -/
def nearest? (d : Decimal) : Option Magnitude :=
  if d.digits = 0 then some .zero
  else if 310 ≤ d.exponent then none
  else if d.exponent + d.digits.log2 < -400 then some .zero
  else Magnitude.nearest? d.ratio.1 d.ratio.2

end Decimal

namespace Magnitude

/-- The decimal exponent of the leading digit of a magnitude other than zero. -/
def leadingExponent (m : Magnitude) : Int :=
  ((Nat.toDigits 10 (m.units * Nat.pow 10 400 / unitsPerOne)).length : Int) - 401

/-- The magnitude as a ratio, counted in steps of `10 ^ exponent`. -/
def steps (m : Magnitude) (exponent : Int) : Nat × Nat :=
  if 0 ≤ exponent then (m.units, unitsPerOne * Nat.pow 10 exponent.toNat)
  else (m.units * Nat.pow 10 (-exponent).toNat, unitsPerOne)

/-- Of the two neighbours of a magnitude among the multiples of `10 ^ exponent`, the nearest one
    that reads back as the magnitude; the even one where both are equally near. -/
def neighbour? (m : Magnitude) (exponent : Int) : Option Decimal :=
  let (num, den) := m.steps exponent
  let below : Decimal := ⟨num / den, exponent⟩
  let above : Decimal := ⟨num / den + 1, exponent⟩
  let nearer := if roundHalfEven num den = num / den then [below, above] else [above, below]
  nearer.find? fun d => d.nearest? = some m

/-- The decimal that is the magnitude exactly. -/
def exact (m : Magnitude) : Decimal := ⟨m.units * Nat.pow 5 1074, -1074⟩

/-- The shortest decimal that reads back as the magnitude, nearest to it among those. -/
def shortest (m : Magnitude) : Decimal :=
  let leading := m.leadingExponent
  ((List.range 17).findSome? fun (more : Nat) => m.neighbour? (leading - more)).getD m.exact

end Magnitude

/-- How a decimal is laid out: where positional notation begins and ends, and how wide an exponent
    is at least. The decimal point stands after as many digits as the bounds count. -/
structure DecimalLayout where
  leastPoint : Int
  greatestPoint : Int
  exponentWidth : Nat

namespace DecimalLayout

/-- Positional from `0.0001` up to sixteen digits before the point, exponents of two digits or more. -/
def standard : DecimalLayout := ⟨-3, 16, 2⟩

/-- Digits followed by as many zeros as the width asks for. -/
def padded (width : Nat) (digits : Text) : Text :=
  digits ++ List.replicate (width - digits.length) (CodePoint.ofChar '0')

/-- Digits with the decimal point after the first `point` of them. -/
def positional (digits : Text) (point : Int) : Text :=
  if point ≤ 0 then lit "0." ++ List.replicate (-point).toNat (CodePoint.ofChar '0') ++ digits
  else
    let whole := padded point.toNat (digits.take point.toNat)
    let fraction := padded 1 (digits.drop point.toNat)
    whole ++ lit "." ++ fraction

/-- An exponent with its sign. -/
def exponentText (layout : DecimalLayout) (exponent : Int) : Text :=
  let digits := Text.ofNat exponent.natAbs
  lit (if exponent < 0 then "e-" else "e+") ++
    List.replicate (layout.exponentWidth - digits.length) (CodePoint.ofChar '0') ++ digits

/-- Digits with the decimal point after the first, and an exponent. -/
def scientific (layout : DecimalLayout) (digits : Text) (point : Int) : Text :=
  digits.take 1 ++ (if digits.length ≤ 1 then [] else lit "." ++ digits.drop 1) ++
    layout.exponentText (point - 1)

/-- A decimal other than zero, without the zeros at its end. -/
def text (layout : DecimalLayout) (d : Decimal) : Text :=
  let all := Text.ofNat d.digits
  let point := (all.length : Int) + d.exponent
  let digits := (all.reverse.dropWhile (· = CodePoint.ofChar '0')).reverse
  if layout.leastPoint ≤ point ∧ point ≤ layout.greatestPoint then positional digits point
  else layout.scientific digits point

end DecimalLayout

namespace Magnitude

/-- A magnitude in decimal. -/
def text (m : Magnitude) : Text :=
  if m.significand = 0 then lit "0.0" else DecimalLayout.standard.text m.shortest

end Magnitude

/-- The words that stand for the numbers which are not finite. -/
structure SpecialWords where
  infinity : Text
  nan : Text

namespace Binary64

/-- The number in decimal, with the given words where it is not finite. -/
def text (words : SpecialWords) : Binary64 → Text
  | .finite negative m => (if negative then lit "-" else []) ++ m.text
  | .infinite negative => (if negative then lit "-" else []) ++ words.infinity
  | .nan _ => words.nan

/-- The number nearest to a decimal with a sign. -/
def ofDecimal (negative : Bool) (d : Decimal) : Binary64 :=
  match d.nearest? with
  | some magnitude => .finite negative magnitude
  | none => .infinite negative

end Binary64

end CallByValue
