import CallByValue.Reports
import Mathlib.Data.List.Induction
import Mathlib.Tactic.SplitIfs

/-!
# The issues of a report

What a report keeps of the calls that are made of it, whatever they raise, and
at which of them it gives up: the issues that could be put into words, in order,
and at the one that makes their number equal to the limit.
-/

namespace CallByValue

namespace Call

/-- The issue that a call asks a report to keep, if it asks for one. -/
def draft? : Call → Option Issue
  | .issue it => some it
  | .noSuchFile path => some (Report.missingFile path)
  | .brokenFile path mishap => some (Report.unreadableFile path mishap)
  | .malformedProgram path message => some (Report.malformed path message)
  | .evaluationFailed failure => some (Report.failed failure failure.description)
  | .ranOutOfStack frames => some (Report.exhausted frames)
  | .info _ | .complain | .assertNone _ => none

/-- What stops the issue of a call from being put into words, if anything does. -/
def obstacle? : Call → Option Halt
  | .evaluationFailed failure => failure.obstacle? (levels standardFrames)
  | .ranOutOfStack frames => numeralObstacle? frames
  | _ => none

/-- The issue that a call asks a report to keep, if it can be put into words. -/
def issue? (call : Call) : Option Issue := if call.obstacle? = none then call.draft? else none

end Call

/-- Did the report give up? -/
def Effect.givesUp (effect : Effect) : Bool :=
  match effect.alarm with
  | some .tooManyIssues => true
  | _ => false

@[simp] theorem Effect.givesUp_iff (effect : Effect) :
    effect.givesUp = true ↔ effect.alarm = some .tooManyIssues := by
  unfold givesUp
  split <;> simp_all

/-- An issue as a complaint shows it. -/
def Issue.entry (issue : Issue) : Text :=
  List.flatten (List.replicate 20 (lit "  -")) ++ lit "\n" ++ issue.text ++ lit "\n"

namespace Report

/-- What a complaint opens with, for the outburst that a number picks. -/
def banner (pick : Nat) : Text :=
  List.replicate 60 (CodePoint.ofChar '*') ++ lit "\n" ++ Outburst.text pick ++ lit "\n"

/-- The report after some calls, each with the number that picks its outburst. -/
def after (report : Report) (calls : List (Nat × Call)) : Report :=
  calls.foldl (fun report call => (report.perform call.1 call.2).report) report

/-- What each of some calls leaves behind. -/
def effects (report : Report) : List (Nat × Call) → List Effect
  | [] => []
  | call :: rest =>
    let effect := report.perform call.1 call.2
    effect :: effect.report.effects rest

/-! ## One call -/

variable (report : Report) (pick : Nat)

theorem perform_of_draft {call : Call} {it : Issue} (asked : call.draft? = some it)
    (free : call.obstacle? = none) : report.perform pick call = report.add it := by
  cases call with
  | evaluationFailed failure =>
    cases asked
    simp only [perform, Failure.describe, show failure.obstacle? (levels standardFrames) = none from free]
    rfl
  | ranOutOfStack frames =>
    cases asked
    rw [perform, show numeralObstacle? frames = none from free]
    rfl
  | _ => cases asked <;> rfl

/-- What stops an issue from being put into words is raised, and nothing is kept. -/
theorem perform_of_obstacle {call : Call} {h : Halt} (stopped : call.obstacle? = some h) :
    report.perform pick call = ⟨report, [], some (.halted h)⟩ := by
  cases call with
  | evaluationFailed failure =>
    simp only [perform, Failure.describe, show failure.obstacle? (levels standardFrames) = some h from stopped]
    rfl
  | ranOutOfStack frames =>
    rw [perform, show numeralObstacle? frames = some h from stopped]
    rfl
  | _ => cases stopped

/-- A call that only prints keeps nothing, and no limit is reached by it. -/
theorem perform_of_no_draft {call : Call} (silent : call.draft? = none) :
    (report.perform pick call).report = report ∧ (report.perform pick call).alarm ≠ some .tooManyIssues := by
  cases call with
  | info details =>
    simp only [perform, inform]
    split_ifs
    · split <;> simp
    · simp
  | complain => simp [perform]
  | assertNone message =>
    simp only [perform]
    split_ifs <;> simp
  | _ => cases silent

/-- Each call either keeps its issue, and gives up if that makes the limit, or keeps nothing and
    does not give up. -/
theorem perform_cases (call : Call) :
    (∃ it, call.issue? = some it ∧ report.perform pick call = report.add it) ∨
      (call.issue? = none ∧ (report.perform pick call).report = report ∧
        (report.perform pick call).alarm ≠ some .tooManyIssues) := by
  cases stopped : call.obstacle? with
  | some h => exact .inr ⟨by simp [Call.issue?, stopped], by simp [perform_of_obstacle report pick stopped]⟩
  | none =>
    cases asked : call.draft? with
    | none => exact .inr ⟨by simp [Call.issue?, stopped, asked], perform_of_no_draft report pick asked⟩
    | some it => exact .inl ⟨it, by simp [Call.issue?, stopped, asked], perform_of_draft report pick asked stopped⟩

theorem perform_report (call : Call) :
    (report.perform pick call).report = { report with issues := report.issues ++ call.issue?.toList } := by
  obtain ⟨it, said, kept⟩ | ⟨none_said, same, -⟩ := report.perform_cases pick call
  · rw [kept, said]
    rfl
  · simp [same, none_said]

/-- A report gives up at exactly the calls that make the number of its issues equal to its limit. -/
theorem alarm_iff (call : Call) :
    (report.perform pick call).alarm = some .tooManyIssues ↔
      call.issue?.isSome ∧ (report.issues.length : Int) + 1 = report.limit := by
  obtain ⟨it, said, kept⟩ | ⟨none_said, -, quiet⟩ := report.perform_cases pick call
  · simp [kept, said, add]
  · simp [none_said, quiet]

theorem complaint_eq :
    report.complaint pick =
      (if report.issues = [] then [] else banner pick) ++ report.issues.flatMap Issue.entry := by
  unfold complaint banner Issue.entry
  simp [List.isEmpty_iff]

/-! ## A sequence of calls -/

variable (verbose : Bool) (limit : Int) (calls : List (Nat × Call))

/-- The issues that some calls ask a report to keep, as far as they can be put into words. -/
def asked : List Issue := calls.filterMap fun call => call.2.issue?

theorem asked_append (more : List (Nat × Call)) : asked (calls ++ more) = asked calls ++ asked more :=
  List.filterMap_append

theorem asked_singleton (call : Nat × Call) : asked [call] = call.2.issue?.toList := by
  cases said : call.2.issue? <;> simp [asked, said]

theorem after_eq : report.after calls = { report with issues := report.issues ++ asked calls } := by
  induction calls generalizing report with
  | nil => simp [after, asked]
  | cons call rest ih =>
    show (report.perform call.1 call.2).report.after rest = _
    rw [ih, perform_report, ← asked_singleton, List.append_assoc, ← asked_append]
    rfl

/-- A new report after some calls. -/
def ofCalls : Report := (start verbose limit).after calls

theorem ofCalls_eq : ofCalls verbose limit calls = ⟨verbose, limit, asked calls⟩ := after_eq _ _

theorem effects_append (more : List (Nat × Call)) :
    report.effects (calls ++ more) = report.effects calls ++ (report.after calls).effects more := by
  induction calls generalizing report with
  | nil => rfl
  | cons call rest ih => simp [effects, ih, after]

/-- However many calls follow the one at which a report gives up, it does not give up again; and it
    does not where its limit is not positive. -/
theorem countP_givesUp :
    ((start verbose limit).effects calls).countP Effect.givesUp =
      if 0 < limit ∧ limit ≤ (asked calls).length then 1 else 0 := by
  induction calls using List.reverseRecOn with
  | nil =>
    have beyond : ¬(0 < limit ∧ limit ≤ ((asked []).length : Int)) := by simp [asked]
    rw [if_neg beyond]
    rfl
  | append_singleton calls call ih =>
    have last : ((ofCalls verbose limit calls).perform call.1 call.2).givesUp = true ↔
        call.2.issue?.isSome ∧ ((asked calls).length : Int) + 1 = limit := by
      rw [Effect.givesUp_iff, alarm_iff, ofCalls_eq]
    have one : ((ofCalls verbose limit calls).effects [call]).countP Effect.givesUp =
        if call.2.issue?.isSome ∧ ((asked calls).length : Int) + 1 = limit then 1 else 0 := by
      simp only [effects, List.countP_singleton, last]
    rw [effects_append, List.countP_append, ih, ← ofCalls, one, asked_append, asked_singleton]
    cases call.2.issue? with
    | none => simp
    | some it =>
      simp only [Option.isSome_some, true_and, Option.toList_some, List.length_append, List.length_singleton]
      split_ifs <;> omega

example (it : Issue) :
    ((start false 2).effects (List.replicate 5 (0, .issue it))).map Effect.givesUp =
      [false, true, false, false, false] := rfl

theorem ok_eq : report.ok = !report.sick := by simp [ok, sick]

theorem sick_iff : report.sick = true ↔ report.issues ≠ [] := by simp [sick]

theorem sick_after (sick : report.sick = true) : (report.after calls).sick = true := by
  rw [sick_iff] at sick ⊢
  simp [after_eq, sick]

theorem assertNone_of_nil (message : Text) (none_kept : report.issues = []) :
    report.perform pick (.assertNone message) = ⟨report, [], none⟩ := by
  simp [perform, sick, none_kept]

theorem assertNone_of_issues (message : Text) (some_kept : report.issues ≠ []) :
    report.perform pick (.assertNone message) =
      ⟨report, banner pick ++ report.issues.flatMap Issue.entry,
        some (.assertion (Outburst.text pick ++ lit " " ++ message))⟩ := by
  rw [perform, if_pos (report.sick_iff.mpr some_kept), complaint_eq, if_neg some_kept]

/-- Whatever is asked of a report, and whatever it raises on the way, it holds all the issues that
    could be put into words, in order. It gives up at the one call that makes their number equal to
    its limit, with that issue kept; never, if the limit is not positive. A call whose issue cannot be
    put into words, or that has none, changes nothing. A report that has been sick stays so, and an
    assertion that it has no issues is raised only then, with all of them printed. -/
theorem keeps_every_issue_and_gives_up_once :
    ofCalls verbose limit calls = ⟨verbose, limit, asked calls⟩ ∧
      (∀ pick call,
        ((ofCalls verbose limit calls).perform pick call).report =
          ⟨verbose, limit, asked calls ++ call.issue?.toList⟩ ∧
        (((ofCalls verbose limit calls).perform pick call).alarm = some .tooManyIssues ↔
          call.issue?.isSome ∧ ((asked calls).length : Int) + 1 = limit) ∧
        (∀ h, call.obstacle? = some h →
          (ofCalls verbose limit calls).perform pick call = ⟨ofCalls verbose limit calls, [], some (.halted h)⟩) ∧
        (call.draft? = none →
          ((ofCalls verbose limit calls).perform pick call).report = ofCalls verbose limit calls)) ∧
      ((start verbose limit).effects calls).countP Effect.givesUp =
        (if 0 < limit ∧ limit ≤ (asked calls).length then 1 else 0) ∧
      (ofCalls verbose limit calls).ok = !(ofCalls verbose limit calls).sick ∧
      ((ofCalls verbose limit calls).sick = true ↔ asked calls ≠ []) ∧
      (∀ later, (ofCalls verbose limit calls).sick = true → ((ofCalls verbose limit calls).after later).sick = true) ∧
      ∀ pick message,
        (asked calls = [] →
          (ofCalls verbose limit calls).perform pick (.assertNone message) = ⟨ofCalls verbose limit calls, [], none⟩) ∧
        (asked calls ≠ [] →
          ((ofCalls verbose limit calls).perform pick (.assertNone message)).printed =
            banner pick ++ (asked calls).flatMap Issue.entry ∧
          ∃ words,
            ((ofCalls verbose limit calls).perform pick (.assertNone message)).alarm = some (.assertion words)) := by
  have holds := ofCalls_eq verbose limit calls
  generalize ofCalls verbose limit calls = report at holds ⊢
  have issues : report.issues = asked calls := by rw [holds]
  refine ⟨holds, ?_, countP_givesUp verbose limit calls, report.ok_eq, issues ▸ report.sick_iff,
    report.sick_after, ?_⟩
  · intro pick call
    refine ⟨?_, ?_, fun h => report.perform_of_obstacle pick,
      fun silent => (report.perform_of_no_draft pick silent).1⟩
    · rw [perform_report, holds]
    · rw [alarm_iff, holds]
  · intro pick message
    refine ⟨fun none_kept => report.assertNone_of_nil pick message (issues ▸ none_kept), fun some_kept => ?_⟩
    rw [report.assertNone_of_issues pick message (issues ▸ some_kept), issues]
    exact ⟨rfl, _, rfl⟩

end Report

end CallByValue
