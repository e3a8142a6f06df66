import CallByValue.Text

/-!
# Limits

Work that no program could have asked to go on for ever is cut short by the
host: it grants so many frames to nested visits, and it refuses to convert
integers of more than 4300 digits to and from text.

Reading, comparing and evaluating count levels, one for each nested visit, and a
level stands for two frames whatever the form. That is an idealisation: the frames in
use before the work begins, and what lists of arguments, long chains of environments
or the early end of a comparison take or save, are the host's affair. So what is
proved of evaluations is proved for any number of levels, and runs are looked at on
any host. Only writing counts its frames form by form.
-/

namespace CallByValue

/-- Why the host stopped a piece of work. -/
inductive Halt where
  | stackExhausted
  | numeralTooLong
deriving DecidableEq

/-- The most digits an integer may have in text. -/
def digitLimit : Nat := 4300

/-- The frames granted unless something else is asked for. -/
def standardFrames : Nat := 1000

/-- How many nested visits of expressions so many frames allow: each takes two. -/
def levels (frames : Nat) : Nat := frames / 2

/-- The frames that so many levels stand for. -/
def framesOf (levels : Nat) : Nat := 2 * levels

/-- What a host makes of its frames: how many it leaves to the reading of a program, and how many levels it
    allows for writing and for evaluation once a limit is set. -/
structure Host where
  reading : Nat
  writing : Nat → Nat
  evaluation : Nat → Nat

/-- The host that has all of its frames to spare. -/
def Host.standard : Host := ⟨standardFrames, levels, levels⟩

/-- What stops an integer from being written, if anything does. -/
def numeralObstacle? (n : Int) : Option Halt :=
  if n.natAbs < Nat.pow 10 digitLimit then none else some .numeralTooLong

namespace Halt

/-- The words for an integer that is too long to be written. -/
def numeralTooLongText : Text :=
  lit "Exceeds the limit (" ++ Text.ofNat digitLimit ++
    lit " digits) for integer string conversion; use sys.set_int_max_str_digits() to increase the limit"

/-- The words for an integer of so many digits that is too long to be read. -/
def numeralTooLongToReadText (digits : Nat) : Text :=
  lit "Exceeds the limit (" ++ Text.ofNat digitLimit ++
    lit " digits) for integer string conversion: value has " ++ Text.ofNat digits ++
    lit " digits; use sys.set_int_max_str_digits() to increase the limit"

end Halt

end CallByValue
