import CallByValue.Limits
import CallByValue.Quoted

/-!
# Mishaps

What kept a file from being read, in one line: the name of its kind, and what
its details say. Errors of the operating system have a number, which may give
them a name of their own.
-/

namespace CallByValue

/-- A detail that a message is made of. -/
inductive Detail where
  | text (t : Text)
  | integer (n : Int)
  | truth (b : Bool)
  | nothing
deriving DecidableEq

namespace Detail

/-- A detail on its own. -/
def shown : Detail → Text
  | text t => t
  | integer n => Text.ofInt n
  | truth b => lit (if b then "True" else "False")
  | nothing => lit "None"

/-- The number that a detail counts as. -/
def number? : Detail → Option Int
  | integer n => some n
  | truth b => some (if b then 1 else 0)
  | _ => none

/-- What stops a detail from being written, if anything does. -/
def obstacle? : Detail → Option Halt
  | integer n => numeralObstacle? n
  | _ => none

/-- A detail among others, a text in quotes. -/
def quoted : Detail → Text
  | text t => Quoted.quote t
  | detail => detail.shown

end Detail

/-- The kinds of mishaps. -/
inductive MishapKind where
  | value
  | key
  | runtime
  | system
  | malformed
  | tooManyIssues
deriving DecidableEq

/-- A mishap. -/
structure Mishap where
  kind : MishapKind
  details : List Detail

namespace Mishap

/-- The numbers of system errors that have names of their own. -/
def systemNames : List (Int × String) :=
  [(1, "PermissionError"), (2, "FileNotFoundError"), (3, "ProcessLookupError"), (4, "InterruptedError"),
    (10, "ChildProcessError"), (11, "BlockingIOError"), (13, "PermissionError"), (17, "FileExistsError"),
    (20, "NotADirectoryError"), (21, "IsADirectoryError"), (32, "BrokenPipeError"),
    (103, "ConnectionAbortedError"), (104, "ConnectionResetError"), (108, "BrokenPipeError"),
    (110, "TimeoutError"), (111, "ConnectionRefusedError"), (114, "BlockingIOError"),
    (115, "BlockingIOError")]

/-- Does a system error with these details have a number and a description? -/
def isNumbered (details : List Detail) : Bool := decide (2 ≤ details.length) && decide (details.length ≤ 5)

/-- The name of a system error, that of its number if it has one. -/
def systemName (details : List Detail) : String :=
  match details.head?.bind Detail.number? with
  | some n =>
    if isNumbered details then ((systemNames.find? (·.1 = n)).map (·.2)).getD "OSError" else "OSError"
  | none => "OSError"

/-- The name of a mishap's kind. -/
def name (m : Mishap) : Text :=
  match m.kind with
  | .value => lit "ValueError"
  | .key => lit "KeyError"
  | .runtime => lit "RuntimeError"
  | .malformed => lit "minnow.codec.MalformedExpression"
  | .tooManyIssues => lit "minnow.diagnostics.TooManyIssues"
  | .system => lit (systemName m.details)

/-- What several details say together. -/
def tuple (details : List Detail) : Text := lit "(" ++ Text.listed (details.map Detail.quoted) ++ lit ")"

/-- The files that a system error of some name mentions behind its description. Where an operation
    would have blocked, a number there is no file: it counts what was done before. -/
def files (name : String) : List Detail → Text
  | first :: rest =>
    if first = .nothing ∨ (name = "BlockingIOError" ∧ first.number?.isSome) then []
    else
      lit ": " ++ first.quoted ++
        match rest with
        | [_, second] => if second = .nothing then [] else lit " -> " ++ second.quoted
        | _ => []
  | [] => []

/-- What a mishap says. -/
def message (m : Mishap) : Text :=
  match m.kind, m.details with
  | _, [] => []
  | .key, [detail] => detail.quoted
  | _, [detail] => detail.shown
  | .system, number :: description :: rest =>
    if isNumbered m.details then
      lit "[Errno " ++ number.shown ++ lit "] " ++ description.shown ++
        files (systemName m.details) rest
    else tuple m.details
  | _, details => tuple details

/-- A mishap in one line, without blanks at its end. -/
def line (m : Mishap) : Text :=
  let full := if m.message.isEmpty then m.name else m.name ++ lit ": " ++ m.message
  (full.reverse.dropWhile CodePoint.isBlank).reverse

end Mishap

end CallByValue
