import CallByValue.Decimals

/-!
# Numbers

Integers are unbounded and exact. An integer that meets a binary64 number is
converted to one first, and the quotient of two integers is the binary64 number
nearest to the exact ratio; either fails where the result is too large.
-/

namespace CallByValue

/-- A number of the language. -/
inductive Number where
  | integer (n : Int)
  | float (x : Binary64)
deriving DecidableEq

/-- Why an arithmetic operation has no result. -/
inductive ArithmeticFault where
  | divisionByZero
  | overflow
deriving DecidableEq

namespace Number

/-- The number as a binary64 number; none where an integer is too large. -/
def toBinary64? : Number → Option Binary64
  | .integer n => Binary64.ofInt? n
  | .float x => some x

/-- Both numbers as binary64 numbers, combined. -/
def rounded (combine : Binary64 → Binary64 → Binary64) (a b : Number) : Except ArithmeticFault Number :=
  match a.toBinary64?, b.toBinary64? with
  | some x, some y => .ok (.float (combine x y))
  | _, _ => .error .overflow

/-- The sum; where it is a NaN, it gets the mark. -/
def add (mark : Nat) : Number → Number → Except ArithmeticFault Number
  | .integer a, .integer b => .ok (.integer (a + b))
  | a, b => rounded (Binary64.add mark) a b

/-- The difference. -/
def sub (mark : Nat) : Number → Number → Except ArithmeticFault Number
  | .integer a, .integer b => .ok (.integer (a - b))
  | a, b => rounded (Binary64.sub mark) a b

/-- The product. -/
def mul (mark : Nat) : Number → Number → Except ArithmeticFault Number
  | .integer a, .integer b => .ok (.integer (a * b))
  | a, b => rounded (Binary64.mul mark) a b

/-- Is the number zero, of either kind and sign? -/
def isZero : Number → Bool
  | .integer n => n = 0
  | .float x => x.isZero

/-- The binary64 number nearest to an exact ratio. -/
def ratio (a b : Int) : Except ArithmeticFault Number :=
  (Binary64.ofQuotient? a b).elim (.error .overflow) fun x => .ok (.float x)

/-- The quotient, always a binary64 number. A divisor of zero is refused before anything is converted. -/
def div (mark : Nat) (a b : Number) : Except ArithmeticFault Number :=
  if b.isZero then .error .divisionByZero
  else match a, b with
    | .integer a, .integer b => ratio a b
    | a, b => rounded (Binary64.div mark) a b

/-- Equality of the numbers denoted, exact also between the two kinds. -/
def equals : Number → Number → Bool
  | .integer a, .integer b => a = b
  | .float x, .float y => x.equals y
  | .integer a, .float y => y.equalsInt a
  | .float x, .integer b => x.equalsInt b

/-- Equality of the numbers denoted, or one and the same NaN. -/
def same (a b : Number) : Bool := a.equals b || a = b

/-- The number in decimal. -/
def text (words : SpecialWords) : Number → Text
  | .integer n => Text.ofInt n
  | .float x => x.text words

end Number

end CallByValue
