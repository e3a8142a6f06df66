import CallByValue.Printable

/-!
# Quoted text

Messages quote names so that every code point can be seen: single quotes, or
double quotes around a name that holds single ones only, and an escape for each
code point that would not show.
-/

namespace CallByValue.Quoted

/-- The escape of a code point that does not show, as short as its number allows. -/
def escape (n : Nat) : Text :=
  if n < 0x100 then lit "\\x" ++ Text.hexadecimal 2 n
  else if n < 0x10000 then lit "\\u" ++ Text.hexadecimal 4 n
  else lit "\\U" ++ Text.hexadecimal 8 n

/-- A code point between quotes of the given kind. -/
def point (mark : Char) (c : CodePoint) : Text :=
  if c = CodePoint.ofChar mark ∨ c = CodePoint.ofChar '\\' then [CodePoint.ofChar '\\', c]
  else if c = CodePoint.ofChar '\t' then lit "\\t"
  else if c = CodePoint.ofChar '\n' then lit "\\n"
  else if c = CodePoint.ofChar '\r' then lit "\\r"
  else if c.isPrintable then [c]
  else escape c.val

/-- The kind of quotes for a text. -/
def mark (t : Text) : Char :=
  if t.contains (CodePoint.ofChar '\'') && !t.contains (CodePoint.ofChar '"') then '"' else '\''

/-- A text in quotes. -/
def quote (t : Text) : Text :=
  [CodePoint.ofChar (mark t)] ++ t.flatMap (point (mark t)) ++ [CodePoint.ofChar (mark t)]

end CallByValue.Quoted
