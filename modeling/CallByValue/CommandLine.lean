import CallByValue.Arguments
import CallByValue.Evaluation
import CallByValue.Folders
import CallByValue.Programs
import CallByValue.Reports

/-!
# The command line

Reads one program file, evaluates it in the empty environment and shows its
value. What the program says and its value go to standard output, trouble and
everything else to standard error.
-/

namespace CallByValue

/-- Why a run ends without an answer of its own. -/
inductive Crash where
  | numeralTooLongToRead (digits : Nat)
  | numeralTooLong
  | stackExhausted
  | limitNotPositive
  | limitTooLow
  | limitTooLarge
  | zeroInName
  | notAName (fault : Utf8.NameFault)
  | alarmed (alarm : Alarm)

/-- How a run ends: with an exit status, by returning without one, or without an answer of its own. -/
inductive Ending where
  | exit (status : Nat)
  | returned
  | crashed (crash : Crash)

/-- What a run prints and how it ends. -/
structure Answer where
  stdout : Text
  stderr : Text
  ending : Ending

namespace CommandLine

/-- How the program is called, on one line. -/
def usage : Text := lit "usage: minnow [-h] [-v] [-q] [--recursion-limit RECURSION_LIMIT] program\n"

/-- What is printed for a call without arguments. -/
def introduction : Text :=
  lit "This is an evaluator for the Minnow expression language.\n\n" ++ usage ++
    Text.ofLines
      ["", "",
        "Programs arrive as JSON expression trees. For example:", "",
        "    minnow examples/factorial.json", "",
        "will evaluate that program and print the result, or else try to explain why not.", "",
        "    minnow -h", "",
        "will explain all the arguments.", ""]

/-- What is printed for a call for help. -/
def help : Text :=
  usage ++
    Text.ofLines
      ["", "Evaluator for the Minnow expression language.", "",
        "positional arguments:",
        "  program               a JSON expression tree; try examples/factorial.json",
        "                        for example.", "",
        "options:",
        "  -h, --help            show this help message and exit",
        "  -v, --verbose         Say what is going on, on stderr.",
        "  -q, --quiet           Discard whatever the program says with `say`.",
        "  --recursion-limit RECURSION_LIMIT",
        "                        Let deeply recursive programs go deeper than Python",
        "                        normally allows. The C stack still has its own limit,",
        "                        so a very large value can crash the interpreter",
        "                        outright instead of producing a report.", ""]

/-- The frames in use before evaluation begins: a limit below them cannot be set. -/
def framesInUse : Int := 16

/-- The largest limit that can be set. -/
def largestLimit : Int := 0x7FFFFFFF

/-- The frames granted, or why the limit asked for cannot be set. A limit of zero asks for nothing. -/
def framesFor : Option Int → Except Crash Nat
  | none => .ok standardFrames
  | some limit =>
    if limit = 0 then .ok standardFrames
    else if largestLimit < limit ∨ limit < -largestLimit - 1 then .error .limitTooLarge
    else if limit < 1 then .error .limitNotPositive
    else if limit ≤ framesInUse then .error .limitTooLow
    else .ok limit.toNat

/-- The crash that a halt outside every guard amounts to. -/
def crashOf : Halt → Crash
  | .stackExhausted => .stackExhausted
  | .numeralTooLong => .numeralTooLong

/-- The answer that reports issues: they go to standard error, behind what stands there already. Nothing
    catches what the report itself raises. -/
def reported (stdout stderr : Text) (effect : Effect) (pick : Nat) : Answer :=
  match effect.alarm with
  | some alarm => ⟨stdout, stderr, .crashed (.alarmed alarm)⟩
  | none => ⟨stdout, stderr ++ effect.report.complaint pick, .exit 1⟩

/-- Evaluates a program and shows its value. The surface text of the program is made whether or not
    it is printed, under the same guard against exhaustion as the evaluation; describing a failure
    and showing a value stand outside that guard. -/
def evaluated (host : Host) (frames : Nat) (channel : Channel) (report : Report) (pick : Nat) (program : Expr) :
    Answer :=
  -- No limit that can be set is too long to be put into words.
  let exhausted (stdout stderr : Text) : Answer :=
    reported stdout stderr (report.add (Report.exhausted frames)) pick
  match program.render (host.writing frames) with
  | .error .stackExhausted => exhausted [] []
  | .error .numeralTooLong => ⟨[], [], .crashed .numeralTooLong⟩
  | .ok text =>
    let stderr := (report.perform pick (.info [.text (lit "Evaluating"), .text text])).printed
    let (outcome, progress) := evaluate channel (host.evaluation frames) program [] (.start .empty)
    let stdout := if channel = .console then Channel.stream progress.said.toList else []
    match outcome with
    | .halted .stackExhausted => exhausted stdout stderr
    | .halted .numeralTooLong => ⟨stdout, stderr, .crashed .numeralTooLong⟩
    | .failure failure =>
      match failure.obstacle? (host.writing frames) with
      | some h => ⟨stdout, stderr, .crashed (crashOf h)⟩
      | none => reported stdout stderr (report.add (Report.failed failure failure.description)) pick
    | .success v =>
      match v.render (host.writing frames) with
      | .error h => ⟨stdout, stderr, .crashed (crashOf h)⟩
      | .ok text => ⟨stdout ++ text ++ lit "\n", stderr, .exit 0⟩

/-- Runs what a path's file holds. -/
def run (host : Host) (options : Options) (path : Path) (opened : Opened) (pick : Nat) : Answer :=
  let report := Report.start (decide (options.verbose ≠ 0)) Report.standardLimit
  let refuse (call : Call) : Answer := reported [] [] (report.perform pick call) pick
  match opened with
  | .zeroInName => ⟨[], [], .crashed .zeroInName⟩
  | .notAName fault => ⟨[], [], .crashed (.notAName fault)⟩
  | .missing => refuse (.noSuchFile path)
  | .refused number description =>
    refuse (.brokenFile path ⟨.system, [.integer number, .text description, .text path.text]⟩)
  | .content bytes =>
    match Expr.ofBytes host.reading bytes with
    | .error (.numeralTooLong digits) => ⟨[], [], .crashed (.numeralTooLongToRead digits)⟩
    | .error e => refuse (.malformedProgram path e.text)
    | .ok program =>
      match framesFor options.recursionLimit with
      | .error crash => ⟨[], [], .crashed crash⟩
      | .ok frames =>
        evaluated host frames (if options.quiet then .silence else .console) report pick program

/-- The path of the program that options name, seen from a folder. -/
def programPath (here : Path) (options : Options) : Path :=
  here.join (Path.ofText (options.program.getD []))

/-- What is answered where the arguments end the run. -/
def stopped : Stop → Answer
  | .help => ⟨help, [], .exit 0⟩
  | .usage e => ⟨[], usage ++ lit "minnow: error: " ++ e.text ++ lit "\n", .exit 2⟩

/-- The file that a call with some arguments has to read, if there is one. -/
def wanted? (here : Path) (arguments : List Text) : Option Path :=
  match Options.ofArguments arguments with
  | .ok options => some (programPath here options)
  | .error _ => none

/-- What a call with some arguments answers, made in a folder, where `contents` tells what files hold.
    The number picks the outburst, should there be one. -/
def answer (here : Path) (contents : Path → Opened) (arguments : List Text) (pick : Nat) : Answer :=
  if arguments.isEmpty then ⟨introduction, [], .returned⟩
  else
    match Options.ofArguments arguments with
    | .error stop => stopped stop
    | .ok options =>
      let path := programPath here options
      run .standard options path (contents path) pick

end CommandLine

namespace Crash

/-- The words for a crash. Exhaustion has none, and neither does a report that gives up. -/
def text : Crash → Text
  | numeralTooLongToRead digits => Halt.numeralTooLongToReadText digits
  | numeralTooLong => Halt.numeralTooLongText
  | limitNotPositive => lit "recursion limit must be greater or equal than 1"
  | limitTooLarge => lit "Python int too large to convert to C int"
  | zeroInName => lit "embedded null byte"
  | notAName fault => fault.text
  | alarmed alarm => alarm.text
  | stackExhausted => []
  | limitTooLow => []

end Crash

end CallByValue
