import CallByValue.Text

/-!
# Escapes in JSON strings

Writing uses ASCII only: what lies outside the printable ASCII range is escaped,
and a code point past U+FFFF takes a pair of surrogate escapes.
-/

namespace CallByValue.Escapes

/-- The letter of a short escape and the code point it stands for. -/
def short : List (Char × Char) :=
  [('"', '"'), ('\\', '\\'), ('n', '\n'), ('r', '\r'), ('t', '\t'), ('b', '\x08'), ('f', '\x0c')]

/-- The letter after the backslash for a code point that has a short escape. -/
def letter? (c : CodePoint) : Option CodePoint :=
  (short.find? fun pair => CodePoint.ofChar pair.2 = c).map fun pair => CodePoint.ofChar pair.1

/-- The code point that a letter after a backslash stands for. A slash stands for itself. -/
def meant? (c : CodePoint) : Option CodePoint :=
  if c = CodePoint.ofChar '/' then some c
  else (short.find? fun pair => CodePoint.ofChar pair.1 = c).map fun pair => CodePoint.ofChar pair.2

/-- A number below 65536 as an escape of four hexadecimal digits. -/
def unit (n : Nat) : Text := lit "\\u" ++ Text.hexadecimal 4 n

/-- A code point inside a string. -/
def point (c : CodePoint) : Text :=
  match letter? c with
  | some letter => [CodePoint.ofChar '\\', letter]
  | none =>
    if 0x20 ≤ c.val ∧ c.val ≤ 0x7E then [c]
    else if c.val < 0x10000 then unit c.val
    else
      let offset := c.val - 0x10000
      unit (0xD800 + offset / 0x400) ++ unit (0xDC00 + offset % 0x400)

/-- A text as a JSON string. -/
def quote (t : Text) : Text := lit "\"" ++ t.flatMap point ++ lit "\""

end CallByValue.Escapes
