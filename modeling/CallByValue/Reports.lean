import CallByValue.Failures
import CallByValue.Mishaps
import CallByValue.Paths

/-!
# Reports

A report collects issues for a person. The issue that makes their number equal
to the report's limit is still kept, and the report gives up at it, once.
-/

namespace CallByValue

/-- An issue: an introduction and perhaps a few lines more. -/
structure Issue where
  intro : Text
  footer : List Text

/-- An issue in lines. -/
def Issue.text (issue : Issue) : Text := List.intercalate (lit "\n") (issue.intro :: issue.footer)

/-- A report: whether it says what is going on, its limit, and its issues in order. -/
structure Report where
  verbose : Bool
  limit : Int
  issues : List Issue

/-- What a report raises. -/
inductive Alarm where
  | tooManyIssues
  | assertion (message : Text)
  | halted (h : Halt)

/-- The words for what a report raises. Only an assertion and an integer that is too long have any. -/
def Alarm.text : Alarm → Text
  | .assertion message => message
  | .halted .numeralTooLong => Halt.numeralTooLongText
  | _ => []

/-- What a host may ask of a report. -/
inductive Call where
  | issue (it : Issue)
  | noSuchFile (path : Path)
  | brokenFile (path : Path) (mishap : Mishap)
  | malformedProgram (path : Path) (message : Text)
  | evaluationFailed (failure : Failure)
  | ranOutOfStack (frames : Int)
  | info (details : List Detail)
  | complain
  | assertNone (message : Text)

/-- What a call leaves behind: the report, what was printed, and what was raised. -/
structure Effect where
  report : Report
  printed : Text
  alarm : Option Alarm

namespace Outburst

/-- The first words of an outburst. -/
def particles : List String := ["Oh, ", "Well, ", "Aw, ", "", ""]

/-- The oaths. -/
def oaths : List String :=
  ["Ack", "Blargh", "Confound it", "Crud", "Curses", "Drat", "Fiddlesticks", "Good Grief", "Great Scott",
    "Heavens", "Jeepers", "Nuts", "Rats", "Snap", "Woe is me"]

/-- The resignations. -/
def resignations : List String :=
  ["I cannot continue.", "The evaluation went no further.", "I have no idea what the right answer is.",
    "Something is fishy in this program."]

/-- The one of some phrases that a number picks. -/
def choose (pick : Nat) (phrases : List String) : Text := lit (phrases[pick % phrases.length]?.getD "")

/-- The outburst that a number picks. -/
def text (pick : Nat) : Text :=
  choose pick particles ++ choose pick oaths ++ lit "! " ++ choose pick resignations

end Outburst

namespace Report

/-- The limit of a report unless something else is asked for. -/
def standardLimit : Int := 3

/-- A report without issues. -/
def start (verbose : Bool) (limit : Int) : Report := ⟨verbose, limit, []⟩

/-- Are there no issues? -/
def ok (report : Report) : Bool := report.issues.isEmpty

/-- Are there issues? -/
def sick (report : Report) : Bool := !report.issues.isEmpty

/-- The complaint about all issues, with the outburst that a number picks; nothing where there are none. -/
def complaint (report : Report) (pick : Nat) : Text :=
  let rule := List.flatten (List.replicate 20 (lit "  -")) ++ lit "\n"
  let head :=
    if report.issues.isEmpty then []
    else List.replicate 60 (CodePoint.ofChar '*') ++ lit "\n" ++ Outburst.text pick ++ lit "\n"
  head ++ report.issues.flatMap fun issue => rule ++ issue.text ++ lit "\n"

/-- Keeps an issue, and gives up where that makes the limit. -/
def add (report : Report) (issue : Issue) : Effect :=
  let issues := report.issues ++ [issue]
  ⟨{ report with issues }, [], if (issues.length : Int) = report.limit then some .tooManyIssues else none⟩

/-- The issue that no file has a name. -/
def missingFile (path : Path) : Issue := ⟨lit "I see no file called " ++ path.text, []⟩

/-- The issue that a file cannot be read. -/
def unreadableFile (path : Path) (mishap : Mishap) : Issue :=
  ⟨lit "Something went pear-shaped while trying to read " ++ path.text, [mishap.line]⟩

/-- The issue that a file holds no program. -/
def malformed (path : Path) (message : Text) : Issue :=
  ⟨lit "The expression tree in " ++ path.text ++ lit " is not well-formed.", [message]⟩

/-- The issue that evaluation ended in a failure with some description. -/
def failed (failure : Failure) (description : Text) : Issue :=
  ⟨lit "Evaluation failed with " ++ failure.kind ++ lit ".", [description]⟩

/-- The issue that evaluation went deeper than so many frames allow. -/
def exhausted (frames : Int) : Issue :=
  ⟨lit "Evaluation recursed deeper than Python allows (limit " ++ Text.ofInt frames ++ lit ").",
    [lit "A runaway fix, perhaps? Or try a larger --recursion-limit."]⟩

/-- Keeps an issue that can be put into words. What stops one from that is raised, and nothing is kept. -/
def tell (report : Report) : Except Halt Issue → Effect
  | .ok issue => report.add issue
  | .error h => ⟨report, [], some (.halted h)⟩

/-- Says what is going on, if the report does that, up to the first detail that cannot be written. -/
def inform (report : Report) (details : List Detail) : Effect :=
  if report.verbose then
    match details.findSome? Detail.obstacle? with
    | none => ⟨report, Text.spaced (details.map Detail.shown) ++ lit "\n", none⟩
    | some h =>
      let written := details.takeWhile fun detail => detail.obstacle?.isNone
      ⟨report, written.flatMap fun detail => detail.shown ++ lit " ", some (.halted h)⟩
  else ⟨report, [], none⟩

/-- What a call does. The number picks the outburst, should there be one. -/
def perform (report : Report) (pick : Nat) : Call → Effect
  | .issue it => report.add it
  | .noSuchFile path => report.add (missingFile path)
  | .brokenFile path mishap => report.add (unreadableFile path mishap)
  | .malformedProgram path message => report.add (malformed path message)
  | .evaluationFailed failure => report.tell ((failure.describe (levels standardFrames)).map (failed failure))
  | .ranOutOfStack frames => report.tell ((numeralObstacle? frames).elim (.ok (exhausted frames)) .error)
  | .info details => report.inform details
  | .complain => ⟨report, report.complaint pick, none⟩
  | .assertNone message =>
    if report.sick then
      ⟨report, report.complaint pick, some (.assertion (Outburst.text pick ++ lit " " ++ message))⟩
    else ⟨report, [], none⟩

end Report

end CallByValue
