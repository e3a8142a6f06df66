/-!
# Text

Names, string literals and everything the library prints are lists of code
points. Surrogates are code points here: an escape inside a program may name
one on its own, and it has to survive being read and written again.
-/

namespace CallByValue

/-- A Unicode code point, surrogates included. -/
structure CodePoint where
  val : Nat
  val_lt : val < 0x110000
deriving DecidableEq

/-- A sequence of code points. -/
abbrev Text := List CodePoint

namespace CodePoint

/-- The code point of a character. -/
def ofChar (c : Char) : CodePoint :=
  ⟨c.toNat, by
    have valid := c.valid
    unfold UInt32.isValidChar Nat.isValidChar at valid
    unfold Char.toNat
    omega⟩

instance : Coe Char CodePoint := ⟨ofChar⟩

instance : Inhabited CodePoint := ⟨ofChar ' '⟩

/-- The code point with a number; a number past the last one stands for U+FFFD. -/
def ofNat (n : Nat) : CodePoint := if h : n < 0x110000 then ⟨n, h⟩ else ⟨0xFFFD, by decide⟩

/-- One of the ASCII digits. -/
def IsDigit (c : CodePoint) : Prop := 48 ≤ c.val ∧ c.val ≤ 57

instance (c : CodePoint) : Decidable c.IsDigit := inferInstanceAs (Decidable (_ ∧ _))

/-- One of the 2048 code points that stand for no character. -/
def IsSurrogate (c : CodePoint) : Prop := 0xD800 ≤ c.val ∧ c.val ≤ 0xDFFF

instance (c : CodePoint) : Decidable c.IsSurrogate := inferInstanceAs (Decidable (_ ∧ _))

/-- One of the 128 ASCII code points. -/
def IsAscii (c : CodePoint) : Prop := c.val < 0x80

instance (c : CodePoint) : Decidable c.IsAscii := inferInstanceAs (Decidable (_ < _))

/-- The character of a code point, U+FFFD for a surrogate. -/
def toChar (c : CodePoint) : Char := if c.IsSurrogate then '\uFFFD' else Char.ofNat c.val

end CodePoint

/-- The text of a string. -/
def lit (s : String) : Text := s.toList.map CodePoint.ofChar

namespace Text

/-- The string of a text, with U+FFFD for each surrogate. -/
def toString (t : Text) : String := String.ofList (t.map CodePoint.toChar)

/-- The parts with a blank between neighbours. -/
def spaced (parts : List Text) : Text := List.intercalate (lit " ") parts

/-- The parts with a comma and a blank between neighbours. -/
def listed (parts : List Text) : Text := List.intercalate (lit ", ") parts

/-- The lines of strings, a line feed between neighbours. -/
def ofLines (lines : List String) : Text := List.intercalate (lit "\n") (lines.map lit)

/-- A natural number in decimal. -/
def ofNat (n : Nat) : Text := (Nat.toDigits 10 n).map CodePoint.ofChar

/-- An integer in decimal, a minus sign before a negative one. -/
def ofInt : Int → Text
  | .ofNat n => ofNat n
  | .negSucc n => '-' :: ofNat (n + 1)

/-- The number that decimal digits denote. -/
def toNat (digits : Text) : Nat := digits.foldl (fun sofar c => 10 * sofar + (c.val - 48)) 0

/-- A number in lower-case hexadecimal, in at least `width` digits. -/
def hexadecimal (width n : Nat) : Text :=
  let digits := (Nat.toDigits 16 n).map CodePoint.ofChar
  List.replicate (width - digits.length) (CodePoint.ofChar '0') ++ digits

/-- The parts of a text between the occurrences of a separator. -/
def partsAt (separator : CodePoint) : Text → List Text
  | [] => [[]]
  | c :: rest =>
    if c = separator then [] :: partsAt separator rest
    else match partsAt separator rest with
      | [] => [[c]]
      | part :: parts => (c :: part) :: parts

end Text

end CallByValue
