import CallByValue.JsonReader
import CallByValue.LineEnds
import CallByValue.Utf8
import CallByValue.Wire

/-!
# Reading programs

From bytes to text, from text to a datum, from a datum to an expression. Each
step has its own complaints. An integer that is too long is no complaint about
the program's form: the host refuses it.
-/

namespace CallByValue

/-- Why a program cannot be read. -/
inductive LoadError where
  | notUtf8 (fault : Utf8.Fault)
  | notJson (fault : JsonFault) (source : Text) (position : Nat)
  | misfit (m : Misfit)
  | tooDeep
  | numeralTooLong (digits : Nat)

namespace LoadError

/-- Is the program itself to blame? -/
def isMalformed : LoadError → Bool
  | numeralTooLong _ => false
  | _ => true

/-- The words for an error. -/
def text : LoadError → Text
  | notUtf8 fault => lit "Not UTF-8 text: " ++ fault.text
  | notJson fault source position => lit "Not JSON: " ++ fault.at source position
  | misfit m => m.text
  | tooDeep => lit "Nested too deeply to read"
  | numeralTooLong digits => Halt.numeralTooLongToReadText digits

end LoadError

/-- The program that a text holds, read within so many frames. -/
def Expr.ofText (frames : Nat) (t : Text) : Except LoadError Expr :=
  match Json.read frames t with
  | .error (.fault fault position) => .error (.notJson fault t position)
  | .error (.numeralTooLong digits) => .error (.numeralTooLong digits)
  | .error .tooDeep => .error .tooDeep
  | .ok datum =>
    match Wire.decode datum with
    | .error m => .error (.misfit m)
    | .ok e => if levels frames < e.depth then .error .tooDeep else .ok e

/-- The program that a file's bytes hold, read within so many frames. -/
def Expr.ofBytes (frames : Nat) (bytes : List UInt8) : Except LoadError Expr :=
  match Utf8.decode bytes with
  | .error fault => .error (.notUtf8 fault)
  | .ok t => Expr.ofText frames (unifyLineEnds t)

/-- The text of a program as JSON. -/
def Expr.json (e : Expr) : Text := (Wire.encode e).text

end CallByValue
