import CallByValue.Json

/-!
# Tokens of JSON text

A text is cut into tokens, each with the position where it begins, up to its
end or to the first piece that is no token. What such a piece is blamed for
depends on what was expected in its place, so it is kept beside the tokens.
-/

namespace CallByValue

/-- What is wrong with a JSON text at some position. -/
inductive JsonFault where
  | byteOrderMark
  | valueExpected
  | nameExpected
  | colonExpected
  | commaExpected
  | extraData
  | controlCharacter
  | unterminatedString
  | unknownEscape
  | brokenEscape
deriving DecidableEq

/-- The words for a fault. -/
def JsonFault.text : JsonFault → Text
  | byteOrderMark => lit "Unexpected UTF-8 BOM (decode using utf-8-sig)"
  | valueExpected => lit "Expecting value"
  | nameExpected => lit "Expecting property name enclosed in double quotes"
  | colonExpected => lit "Expecting ':' delimiter"
  | commaExpected => lit "Expecting ',' delimiter"
  | extraData => lit "Extra data"
  | controlCharacter => lit "Invalid control character at"
  | unterminatedString => lit "Unterminated string starting at"
  | unknownEscape => lit "Invalid \\escape"
  | brokenEscape => lit "Invalid \\uXXXX escape"

/-- A token of JSON text. -/
inductive JsonToken where
  | leftBracket
  | rightBracket
  | leftBrace
  | rightBrace
  | comma
  | colon
  | string (t : Text)
  | scalar (datum : Json)

/-- What stands behind the last token: nothing, or a piece that is no token. -/
inductive JsonEnd where
  | finish
  | stray
  | brokenString (fault : JsonFault) (position : Nat)
  | longNumeral (digits : Nat)

namespace JsonToken

/-! ## Strings -/

/-- A code point read inside a string. The high half of a surrogate pair, when it was escaped,
    is still open: an escaped low half that follows at once completes it. -/
inductive Piece where
  | whole (c : CodePoint)
  | openHalf (c : CodePoint)

/-- The code point of a piece. -/
def Piece.point : Piece → CodePoint
  | whole c => c
  | openHalf c => c

/-- The pieces, latest first, after one more escaped code unit. -/
def addUnit (seen : List Piece) (n : Nat) : List Piece :=
  let isLow := 0xDC00 ≤ n ∧ n ≤ 0xDFFF
  let isHigh := 0xD800 ≤ n ∧ n ≤ 0xDBFF
  match seen with
  | .openHalf high :: before =>
    if isLow then
      .whole (CodePoint.ofNat (0x10000 + (high.val - 0xD800) * 0x400 + (n - 0xDC00))) :: before
    else if isHigh then .openHalf (CodePoint.ofNat n) :: seen
    else .whole (CodePoint.ofNat n) :: seen
  | _ => if isHigh then .openHalf (CodePoint.ofNat n) :: seen else .whole (CodePoint.ofNat n) :: seen

/-- The value of a hexadecimal digit of either case. -/
def hexDigit? (c : CodePoint) : Option Nat :=
  if 48 ≤ c.val ∧ c.val ≤ 57 then some (c.val - 48)
  else if 65 ≤ c.val ∧ c.val ≤ 70 then some (c.val - 55)
  else if 97 ≤ c.val ∧ c.val ≤ 102 then some (c.val - 87)
  else none

/-- The number that four hexadecimal digits denote. -/
def codeUnit? (a b c d : CodePoint) : Option Nat :=
  match hexDigit? a, hexDigit? b, hexDigit? c, hexDigit? d with
  | some a, some b, some c, some d => some (((a * 16 + b) * 16 + c) * 16 + d)
  | _, _, _, _ => none

/-- Reads a string from behind its opening quote, whose position is `opening`. Gives the pieces,
    latest first, and the position behind the closing quote. -/
def scanString (opening : Nat) (seen : List Piece) (position : Nat) :
    Text → Except (JsonFault × Nat) (List Piece × Nat)
  | [] => .error (.unterminatedString, opening)
  | c :: rest =>
    if c = CodePoint.ofChar '"' then .ok (seen, position + 1)
    else if c = CodePoint.ofChar '\\' then
      match rest with
      | [] => .error (.unterminatedString, opening)
      | letter :: rest =>
        if letter = CodePoint.ofChar 'u' then
          match rest with
          | a :: b :: c :: d :: next :: rest =>
            match codeUnit? a b c d with
            | some n => scanString opening (addUnit seen n) (position + 6) (next :: rest)
            | none => .error (.brokenEscape, position + 1)
          | _ => .error (.brokenEscape, position + 1)
        else
          match Escapes.meant? letter with
          | some meant => scanString opening (.whole meant :: seen) (position + 2) rest
          | none => .error (.unknownEscape, position)
    else if c.val < 0x20 then .error (.controlCharacter, position)
    else scanString opening (.whole c :: seen) (position + 1) rest

/-! ## Numerals -/

/-- A numeral: its sign, the digits before and after the point, the sign and digits of the exponent. -/
structure Numeral where
  negative : Bool
  whole : Text
  fraction : Text
  exponentNegative : Bool
  exponent : Text

namespace Numeral

/-- The digits at the front of a text. -/
def digits (t : Text) : Text := t.takeWhile fun c => decide c.IsDigit

/-- The digits before the point: a zero stands alone. -/
def scanWhole (t : Text) : Text :=
  match digits t with
  | [] => []
  | d :: ds => if d = CodePoint.ofChar '0' then [d] else d :: ds

/-- The digits after a point at the front of a text, none if there is no point with a digit behind it. -/
def scanFraction : Text → Text
  | c :: rest => if c = CodePoint.ofChar '.' then digits rest else []
  | [] => []

/-- The sign that an exponent may begin with, and what follows. -/
def splitSign : Text → Option Bool × Text
  | c :: rest =>
    if c = CodePoint.ofChar '-' then (some true, rest)
    else if c = CodePoint.ofChar '+' then (some false, rest)
    else (none, c :: rest)
  | [] => (none, [])

/-- The exponent at the front of a text: its sign, its digits and its length; no digits if there is none. -/
def scanExponent : Text → Bool × Text × Nat
  | c :: rest =>
    if c = CodePoint.ofChar 'e' ∨ c = CodePoint.ofChar 'E' then
      let (sign, rest) := splitSign rest
      let ds := digits rest
      (sign.getD false, ds, if ds.isEmpty then 0 else ds.length + (if sign.isSome then 2 else 1))
    else (false, [], 0)
  | [] => (false, [], 0)

/-- The longest numeral at the front of a text, and its length. -/
def scan? (t : Text) : Option (Numeral × Nat) :=
  let negative := t.head? = some (CodePoint.ofChar '-')
  let unsigned := if negative then t.drop 1 else t
  let whole := scanWhole unsigned
  if whole.isEmpty then none
  else
    let rest := unsigned.drop whole.length
    let fraction := scanFraction rest
    let fractionLength := if fraction.isEmpty then 0 else fraction.length + 1
    let (exponentNegative, exponent, exponentLength) := scanExponent (rest.drop fractionLength)
    some (⟨negative, whole, fraction, exponentNegative, exponent⟩,
      (if negative then 1 else 0) + whole.length + fractionLength + exponentLength)

/-- Is the numeral an integer's: without point and exponent? -/
def isIntegral (n : Numeral) : Bool := n.fraction.isEmpty && n.exponent.isEmpty

/-- The decimal that the digits and the exponent denote, without the sign. -/
def decimal (n : Numeral) : Decimal :=
  let shift : Int := Text.toNat n.exponent
  ⟨Text.toNat (n.whole ++ n.fraction), (if n.exponentNegative then -shift else shift) - n.fraction.length⟩

/-- The number a numeral denotes: exact for an integer, otherwise the nearest binary64 number. -/
def value (n : Numeral) : Number :=
  if n.isIntegral then
    let size : Int := Text.toNat n.whole
    .integer (if n.negative then -size else size)
  else .float (Binary64.ofDecimal n.negative n.decimal)

/-- Is the numeral an integer's, with more digits than may be read? -/
def isTooLong (n : Numeral) : Bool := n.isIntegral && decide (digitLimit < n.whole.length)

end Numeral

/-! ## Tokens -/

/-- The marks that are tokens on their own. -/
def marks : List (Char × JsonToken) :=
  [('[', .leftBracket), (']', .rightBracket), ('\x7b', .leftBrace), ('\x7d', .rightBrace), (',', .comma),
    (':', .colon)]

/-- The words that are tokens. The NaN that can be written down has the mark zero. -/
def wordTokens : List (Text × Json) :=
  [(lit "null", .null), (lit "true", .atom (.boolean true)), (lit "false", .atom (.boolean false)),
    (lit "NaN", .atom (.number (.float (.nan 0)))),
    (lit "Infinity", .atom (.number (.float (.infinite false)))),
    (lit "-Infinity", .atom (.number (.float (.infinite true))))]

/-- Blank, tab, line feed and carriage return stand between tokens. -/
def isBlank (c : CodePoint) : Bool := c.val = 0x20 || c.val = 0x09 || c.val = 0x0A || c.val = 0x0D

/-- What stands at the front of a text. -/
inductive Lexeme where
  | blank
  | token (t : JsonToken) (more : Nat)
  | stop (e : JsonEnd)

/-- The lexeme that begins with `c`, at a position; `more` counts its code points behind `c`. -/
def lexeme (position : Nat) (c : CodePoint) (rest : Text) : Lexeme :=
  if isBlank c then .blank
  else if c = CodePoint.ofChar '"' then
    match scanString position [] (position + 1) rest with
    | .ok (pieces, behind) => .token (.string (pieces.map Piece.point).reverse) (behind - position - 1)
    | .error (fault, place) => .stop (.brokenString fault place)
  else
    match marks.find? fun mark => CodePoint.ofChar mark.1 = c with
    | some mark => .token mark.2 0
    | none =>
      match wordTokens.find? fun word => word.1.isPrefixOf (c :: rest) with
      | some word => .token (.scalar word.2) (word.1.length - 1)
      | none =>
        match Numeral.scan? (c :: rest) with
        | some (numeral, length) =>
          if numeral.isTooLong then .stop (.longNumeral numeral.whole.length)
          else .token (.scalar (.atom (.number numeral.value))) (length - 1)
        | none => .stop .stray

/-- A token and the position where it begins. -/
structure Located where
  token : JsonToken
  position : Nat

/-- The tokens of a text, what stands behind the last of them, and where. -/
structure Scanned where
  tokens : List Located
  ending : JsonEnd
  position : Nat

/-- Scans a text from a position on, after the tokens already seen, latest first; the first
    `skip` code points belong to the token seen last. -/
def scan (seen : List Located) (position skip : Nat) : Text → Scanned
  | [] => ⟨seen.reverse, .finish, position⟩
  | c :: rest =>
    match skip with
    | skip + 1 => scan seen (position + 1) skip rest
    | 0 =>
      match lexeme position c rest with
      | .blank => scan seen (position + 1) 0 rest
      | .token t more => scan (⟨t, position⟩ :: seen) (position + 1) more rest
      | .stop e => ⟨seen.reverse, e, position⟩

/-- The tokens of a text. -/
def ofText (t : Text) : Scanned := scan [] 0 0 t

end JsonToken

end CallByValue
