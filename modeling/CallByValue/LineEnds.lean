import CallByValue.Text

/-!
# Line ends

A line may end in a line feed, in a carriage return, or in both, the carriage
return first. Text that comes from a file has a line feed for each of them.
-/

namespace CallByValue

/-- Makes a line feed of every line end. `afterReturn` holds behind a carriage return, whose line
    feed has been written already. -/
def unifyLineEndsFrom (done : Text) (afterReturn : Bool) : Text → Text
  | [] => done.reverse
  | c :: rest =>
    if c = CodePoint.ofChar '\r' then unifyLineEndsFrom (CodePoint.ofChar '\n' :: done) true rest
    else if c = CodePoint.ofChar '\n' ∧ afterReturn then unifyLineEndsFrom done false rest
    else unifyLineEndsFrom (c :: done) false rest

/-- The text with a line feed for every line end. -/
def unifyLineEnds (t : Text) : Text := unifyLineEndsFrom [] false t

end CallByValue
