import CallByValue.CommandLine

/-!
# The program

Everything but reading the file and printing the answer is decided elsewhere.
-/

namespace CallByValue

/-- What the system says about opening a file. -/
def openFile (path : Path) : IO Opened := do
  let here ← IO.currentDir
  let target := here / path.text.toString
  if path.text.any (·.val = 0) then return .zeroInName
  if ← target.isDir then return .refused 21 (lit "Is a directory")
  try
    let bytes ← IO.FS.readBinFile target
    return .content bytes.toList
  catch
    | .noFileOrDirectory .. => return .missing
    | .inappropriateType .. => return .refused 20 (lit "Not a directory")
    | .permissionDenied .. => return .refused 13 (lit "Permission denied")
    | e => return .refused 5 (lit (toString e))

/-- The status with which the program exits. -/
def Ending.status : Ending → UInt32
  | .exit status => UInt32.ofNat status
  | .returned => 0
  | .crashed _ => 1

/-- What is said on standard error about how a run ended. -/
def Ending.lastWords : Ending → Text
  | .crashed crash => crash.text ++ lit "\n"
  | _ => []

end CallByValue

open CallByValue in
/-- Runs the command line. -/
def main (arguments : List String) : IO UInt32 := do
  let here := Path.ofText (lit (← IO.currentDir).toString)
  let texts := arguments.map lit
  let opened ←
    match CommandLine.wanted? here texts with
    | some path => openFile path
    | none => pure .missing
  let answer := CommandLine.answer here (fun _ => opened) texts (← IO.rand 0 0x40000000)
  (← IO.getStdout).putStr answer.stdout.toString
  (← IO.getStderr).putStr (answer.stderr ++ answer.ending.lastWords).toString
  return answer.ending.status
