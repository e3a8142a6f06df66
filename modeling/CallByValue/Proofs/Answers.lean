import CallByValue.CommandLine
import CallByValue.Proofs.Legibility
import CallByValue.Proofs.Outlets
import Mathlib.Tactic.SplitIfs

/-!
# What the command line answers

The answer of a run can be told from what the library makes of its program: the
outcome decides the status and the last line, the emissions the lines before, and
the options only which of these lines are kept and whether the program is named.
-/

namespace CallByValue

/-! ## Complaints -/

/-- The complaint about one issue, line by line, with the outburst that a number picks. -/
def Issue.complaint (issue : Issue) (pick : Nat) : Text :=
  let stars := List.replicate 60 (CodePoint.ofChar '*')
  let rule := List.flatten (List.replicate 20 (lit "  -"))
  (stars :: Outburst.text pick :: rule :: issue.intro :: issue.footer).flatMap fun line => line ++ lit "\n"

theorem intercalate_append_self (separator first : Text) (rest : List Text) :
    List.intercalate separator (first :: rest) ++ separator =
      (first :: rest).flatMap fun line => line ++ separator := by
  induction rest generalizing first with
  | nil => simp [List.intercalate]
  | cons second rest ih =>
    rw [List.flatMap_cons, ← ih second]
    simp [List.intercalate, List.append_assoc]

namespace Report

theorem complaint_add_start (verbose : Bool) (limit : Int) (issue : Issue) (pick : Nat) :
    ((Report.start verbose limit).add issue).report.complaint pick = issue.complaint pick := by
  have lines : issue.text ++ lit "\n" = (issue.intro :: issue.footer).flatMap fun line => line ++ lit "\n" :=
    intercalate_append_self _ _ _
  simp only [add, start, complaint, List.nil_append, List.isEmpty_cons, Bool.false_eq_true, if_false,
    List.flatMap_cons, List.flatMap_nil, List.append_nil, List.append_assoc, lines, Issue.complaint]

end Report

namespace CommandLine

/-- The report gives up at the third issue only. -/
theorem alarm_add_start (verbose : Bool) (issue : Issue) :
    ((Report.start verbose Report.standardLimit).add issue).alarm = none := rfl

theorem reported_add_start (stdout stderr : Text) (verbose : Bool) (issue : Issue) (pick : Nat) :
    reported stdout stderr ((Report.start verbose Report.standardLimit).add issue) pick =
      ⟨stdout, stderr ++ issue.complaint pick, .exit 1⟩ := by
  rw [reported, alarm_add_start, Report.complaint_add_start]

end CommandLine

/-! ## Kinds of failures -/

namespace Failure

/-- The names of all kinds, in the order in which the kinds are declared. -/
def kinds : List Text :=
  [lit "UnboundVariable", lit "DivisionByZero", lit "NotCallable", lit "UnknownOperator", lit "ArityMismatch",
    lit "NotANumber", lit "NotAFunction", lit "NumericOverflow"]

theorem nodup_kinds : kinds.Nodup := by decide

theorem getElem?_kinds (e : Failure) : kinds[e.ctorIdx]? = some e.kind := by
  cases e <;> rfl

/-- Failures of different kinds have different names. -/
theorem ctorIdx_eq_of_kind {e e' : Failure} (same : e.kind = e'.kind) : e.ctorIdx = e'.ctorIdx := by
  have here := e.getElem?_kinds
  have there := e'.getElem?_kinds
  rw [← same] at there
  exact (List.getElem?_inj (List.getElem?_eq_some_iff.mp here).1 nodup_kinds).mp (here.trans there.symm)

end Failure

/-! ## Answers -/

/-- The channel that options choose. -/
def Options.channel (options : Options) : Channel := if options.quiet then .silence else .console

/-- What keeps an outcome from being told within so many levels, if anything does. -/
def Outcome.obstacle? (levels : Nat) : Outcome Value → Option Halt
  | .success v => v.obstacle? levels
  | .failure e => e.obstacle? levels
  | .halted h => some h

namespace Answer

/-- The line that names the program, if it is asked for. -/
def log (options : Options) (program : Expr) : Text :=
  if options.verbose = 0 then [] else lit "Evaluating " ++ program.text ++ lit "\n"

/-- What has been said, a line for each expression, if it is kept. -/
def talk (options : Options) (said : List Expr) : Text := if options.quiet then [] else Channel.stream said

/-- The answer that an outcome asks for, with what the program says on the way. -/
def ofOutcome (options : Options) (frames pick : Nat) (program : Expr) (outcome : Outcome Value) (said : List Expr) :
    Answer :=
  match outcome with
  | .success v => ⟨talk options said ++ v.shown ++ lit "\n", log options program, .exit 0⟩
  | .failure e =>
    let issue : Issue := ⟨lit "Evaluation failed with " ++ e.kind ++ lit ".", [e.description]⟩
    ⟨talk options said, log options program ++ issue.complaint pick, .exit 1⟩
  | .halted _ => ⟨talk options said, log options program ++ (Report.exhausted frames).complaint pick, .exit 1⟩

end Answer

namespace CommandLine

variable {host : Host} {options : Options} {path : Path} {bytes : List UInt8} {pick frames : Nat} {program : Expr}

theorem printed_info (options : Options) (program : Expr) (pick : Nat) :
    ((Report.start (decide (options.verbose ≠ 0)) Report.standardLimit).perform pick
      (.info [.text (lit "Evaluating"), .text program.text])).printed = Answer.log options program := by
  unfold Answer.log
  by_cases silent : options.verbose = 0
  · simp [silent, Report.perform, Report.inform, Report.start]
  · simp [silent, Report.perform, Report.inform, Report.start, Detail.obstacle?, Text.spaced, List.intercalate,
      Detail.shown]
    rfl

theorem run_content (loaded : Expr.ofBytes host.reading bytes = .ok program)
    (granted : framesFor options.recursionLimit = .ok frames) :
    run host options path (.content bytes) pick =
      evaluated host frames options.channel (Report.start (decide (options.verbose ≠ 0)) Report.standardLimit) pick
        program := by
  simp only [run, loaded, granted]
  rfl

theorem stdout_eq (options : Options) (said : List Expr) :
    (if options.channel = .console then Channel.stream said else []) = Answer.talk options said := by
  unfold Options.channel Answer.talk
  cases options.quiet <;> rfl

theorem run_eq_ofOutcome (options : Options) (loaded : Expr.ofBytes host.reading bytes = .ok program)
    (granted : framesFor options.recursionLimit = .ok frames)
    (rendered : program.obstacle? (host.writing frames) = none)
    {outcome : Outcome Value} {after : Progress}
    (ran : evaluate options.channel (host.evaluation frames) program [] (.start .empty) = (outcome, after))
    (told : outcome.obstacle? (host.writing frames) = none ∨ outcome = .halted .stackExhausted) :
    run host options path (.content bytes) pick = .ofOutcome options frames pick program outcome after.said.toList := by
  have written : program.render (host.writing frames) = .ok program.text := by rw [Expr.render, rendered]
  rw [run_content loaded granted, evaluated, written]
  simp only [printed_info, stdout_eq, ran]
  rcases told with free | rfl
  · cases outcome with
    | success v =>
      have open' : v.obstacle? (host.writing frames) = none := free
      have shown : v.render (host.writing frames) = .ok v.shown := by rw [Value.render, open']
      simp only [shown]
      rfl
    | failure e =>
      have open' : e.obstacle? (host.writing frames) = none := free
      simp only [open', reported_add_start]
      rfl
    | halted h => cases free
  · exact reported_add_start _ _ _ _ _

/-- A report of one issue does not give up. -/
theorem not_alarmed_reported (stdout stderr : Text) (verbose : Bool) (issue : Issue) (pick : Nat) (alarm : Alarm) :
    (reported stdout stderr ((Report.start verbose Report.standardLimit).add issue) pick).ending ≠
      .crashed (.alarmed alarm) := by
  rw [reported_add_start]
  exact nofun

theorem not_alarmed_evaluated (host : Host) (frames : Nat) (channel : Channel) (verbose : Bool) (pick : Nat)
    (program : Expr) (alarm : Alarm) :
    (evaluated host frames channel (Report.start verbose Report.standardLimit) pick program).ending ≠
      .crashed (.alarmed alarm) := by
  have crashes : ∀ h, Ending.crashed (crashOf h) ≠ .crashed (.alarmed alarm) := by
    rintro (_ | _) <;> exact nofun
  unfold evaluated
  dsimp only
  split
  · exact not_alarmed_reported _ _ _ _ _ _
  · exact nofun
  · split
    · exact not_alarmed_reported _ _ _ _ _ _
    · exact nofun
    · split
      · exact crashes _
      · exact not_alarmed_reported _ _ _ _ _ _
    · split
      · exact crashes _
      · exact nofun

theorem framesFor_ne_alarmed (limit : Option Int) (alarm : Alarm) : framesFor limit ≠ .error (.alarmed alarm) := by
  unfold framesFor
  split
  · exact nofun
  · split_ifs <;> exact nofun

/-- No run makes its report give up. -/
theorem not_alarmed_run (host : Host) (options : Options) (path : Path) (opened : Opened) (pick : Nat)
    (alarm : Alarm) : (run host options path opened pick).ending ≠ .crashed (.alarmed alarm) := by
  unfold run
  dsimp only
  split
  · exact nofun
  · exact nofun
  · exact not_alarmed_reported _ _ _ _ _ _
  · exact not_alarmed_reported _ _ _ _ _ _
  · split
    · exact nofun
    · exact not_alarmed_reported _ _ _ _ _ _
    · split
      · next refused =>
        intro ending
        obtain rfl := Ending.crashed.inj ending
        exact framesFor_ne_alarmed _ _ refused
      · exact not_alarmed_evaluated _ _ _ _ _ _ _

end CommandLine

open CommandLine in
/-- The command line refines the library, and its flags do not interfere. Where the program can be written, where it
    completes on the channel that is chosen and its outcome can be told, the answer is the one that the outcome and
    the emissions of the library ask for. Being verbose changes nothing but the line that names the program, and
    being quiet takes away nothing but the lines that are said. A report never gives up, and the name in it tells the
    kind of the failure. -/
theorem run_refines_evaluate (host : Host) (options : Options) (path : Path) (pick : Nat) {bytes : List UInt8}
    {program : Expr} {frames : Nat} (loaded : Expr.ofBytes host.reading bytes = .ok program)
    (granted : framesFor options.recursionLimit = .ok frames)
    (rendered : program.obstacle? (host.writing frames) = none)
    (told : (evaluate options.channel (host.evaluation frames) program [] (.start .empty)).1.obstacle?
      (host.writing frames) = none)
    {channel : Channel} {enough : Nat}
    (completed : (evaluate channel enough program [] (.start .empty)).1.Completed) :
    let answer (options : Options) := run host options path (.content bytes) pick
    let outcome := (evaluate channel enough program [] (.start .empty)).1
    let said := (evaluate channel enough program [] (.start .empty)).2.said.toList
    answer options = .ofOutcome options frames pick program outcome said ∧
      (∀ verbose, (answer { options with verbose }).stdout = (answer options).stdout ∧
        (answer { options with verbose }).ending = (answer options).ending) ∧
      (options.quiet = false → let silent := answer { options with quiet := true }
        answer options = ⟨Channel.stream said ++ silent.stdout, silent.stderr, silent.ending⟩) ∧
      (∀ options alarm, (answer options).ending ≠ .crashed (.alarmed alarm)) ∧
      ∀ e e' : Failure, e.kind = e'.kind → e.ctorIdx = e'.ctorIdx := by
  intro answer outcome said
  have finished : ∀ {o : Outcome Value}, o.obstacle? (host.writing frames) = none → o.Completed := by
    rintro (_ | _ | _) free
    · trivial
    · trivial
    · cases free
  have same := evaluate_eq_of_completed_within completed (finished told)
  have ran : evaluate options.channel (host.evaluation frames) program [] (.start .empty) = (outcome, _) := same
  rw [same] at told
  have louder : ∀ verbose, answer { options with verbose } =
      .ofOutcome { options with verbose } frames pick program outcome said :=
    fun verbose => run_eq_ofOutcome { options with verbose } loaded granted rendered ran (.inl told)
  have here : answer options = .ofOutcome options frames pick program outcome said := louder options.verbose
  refine ⟨here, fun verbose => ?_, fun loud => ?_, ?_, @Failure.ctorIdx_eq_of_kind⟩
  · rw [louder verbose, here]
    cases outcome <;> exact ⟨rfl, rfl⟩
  · -- Whatever the console takes, silence takes too.
    have narrower : options.channel.Narrower .silence := nofun
    have below := (evaluate_trails narrower (Nat.le_refl (host.evaluation frames)) program []).below (.start .empty)
    rw [ran] at below
    have silent : answer { options with quiet := true } =
        .ofOutcome { options with quiet := true } frames pick program outcome said :=
      run_eq_ofOutcome { options with quiet := true } loaded granted rendered (below (finished told)) (.inl told)
    rw [here, silent]
    cases outcome <;> simp [Answer.ofOutcome, Answer.talk, Answer.log, loud]
  · exact fun options alarm => not_alarmed_run host options _ _ _ alarm

/-- Says a name and adds two numbers. -/
def sayThenAdd : Expr :=
  .sequence (.unary (lit "say") (.var (lit "x")))
    [.binary (lit "+") (.literal (.number (.integer 1))) (.literal (.number (.integer 2)))]

theorem evaluate_sayThenAdd : evaluate .recorder 3 sayThenAdd [] (.start .empty) =
    (.success (.atom (.number (.integer 3))), ⟨⟨#[], 2⟩, #[.var (lit "x")]⟩) := rfl

open CommandLine in
/-- The command line names the program and prints what is said and the sum; the library takes three levels for it. -/
theorem run_refines_evaluate_say_then_add :
    let options : Options := ⟨1, false, none, some (lit "p.json")⟩
    Expr.ofBytes standardFrames (Utf8.encode sayThenAdd.json) = .ok sayThenAdd ∧
      framesFor options.recursionLimit = .ok standardFrames ∧
      run .standard options (Path.ofText (lit "/W/p.json")) (.content (Utf8.encode sayThenAdd.json)) 0 =
        ⟨lit "x\n3\n", lit "Evaluating (begin (say x) (+ 1 2))\n", .exit 0⟩ := by
  intro options
  have loaded : Expr.ofBytes standardFrames (Utf8.encode sayThenAdd.json) = .ok sayThenAdd :=
    Expr.ofBytes_encode_json (by decide +kernel) (by decide +kernel) (by decide) (by decide +kernel) (by decide)
  have granted : framesFor options.recursionLimit = .ok standardFrames := rfl
  have completed : (evaluate .recorder 3 sayThenAdd [] (.start .empty)).1.Completed := trivial
  obtain ⟨answers, _⟩ := run_refines_evaluate .standard options (Path.ofText (lit "/W/p.json")) 0 loaded granted
    (by decide +kernel) (by decide +kernel) completed
  rw [evaluate_sayThenAdd] at answers
  exact ⟨loaded, granted, answers⟩

end CallByValue
