import CallByValue.Proofs.Answers
import CallByValue.Proofs.Encodability
import CallByValue.Proofs.Exhaustion
import CallByValue.Proofs.Legibility
import CallByValue.Proofs.Provenance

/-!
# How runs end

Every program that can be read gets an answer, with a single exception. Integers
are computed however long they grow, but only so many digits can be written: where
the answer would have to spell out a longer one, the run ends without any. All else
that is shown or described stood in the program, was read from there, and was
written with the program before anything was evaluated.
-/

namespace CallByValue

/-! ## What an outcome spells out -/

/-- The integer that a value is. -/
def Value.numerals : Value → List Int
  | .atom (.number (.integer n)) => [n]
  | _ => []

/-- The integers that telling an outcome takes to spell out: the value, the value that was called, or the numbers
    of arguments. -/
def Outcome.numerals : Outcome Value → List Int
  | .success v => v.numerals
  | .failure (.notCallable v) => v.numerals
  | .failure (.arityMismatch expected given) => [expected, given]
  | _ => []

namespace Store

variable {store : Store} {e part : Expr}

theorem not_reaches_nil (c : Closure) : ¬ store.Reaches [] c := by
  intro reached
  induction reached with
  | bound inside _ => cases inside
  | captured _ _ _ ih => exact ih

theorem standsIn_of_contains_nil (contains : store.Contains [] e part) : part.StandsIn e := by
  rcases contains with stands | ⟨c, reached, _⟩
  · exact stands
  · exact absurd reached (not_reaches_nil c)

theorem not_holds_nil (v : Value) : ¬ store.Holds [] v := by
  rintro ⟨frame, _, inside | ⟨c, reached, _⟩, _⟩
  · cases inside
  · exact not_reaches_nil c reached

end Store

section
variable {program : Expr} {store : Store} {watched : Nat → Prop} {written : Nat}

/-- Only the integer that it is can keep a value from being shown, where the program has been written. -/
theorem Value.obstacle?_eq_of_provides (rendered : program.obstacle? written = none) {v : Value}
    (provided : (store.provision [] program).Provides watched v) :
    v.obstacle? written = v.numerals.findSome? numeralObstacle? := by
  cases v with
  | closure c => rfl
  | quoted operand =>
    have said : operand.saying.StandsIn program := by
      cases (provided : store.HasQuoted [] program operand) with
      | said stands => exact Store.standsIn_of_contains_nil stands
      | held held => exact absurd held (Store.not_holds_nil _)
    exact Expr.obstacle?_of_mem_children (Expr.obstacle?_of_standsIn rendered said) (Expr.mem_children_saying operand)
  | atom a =>
    cases a with
    | number n =>
      cases n with
      | integer n => cases here : numeralObstacle? n <;> simp [Value.obstacle?, Atom.obstacle?, Value.numerals, here]
      | float x => rfl
    | _ => rfl

/-- Only integers that it takes to spell out can keep an outcome from being told. -/
theorem Outcome.obstacle?_eq_of_satisfies (rendered : program.obstacle? written = none) {outcome : Outcome Value}
    (satisfied : outcome.Satisfies ((store.provision [] program).Provides watched)
      ((store.provision [] program).Permits watched)) (completed : outcome.Completed) :
    outcome.obstacle? written = outcome.numerals.findSome? numeralObstacle? := by
  cases outcome with
  | halted h => exact completed.elim
  | success v => exact Value.obstacle?_eq_of_provides rendered satisfied
  | failure e =>
    cases e with
    | notCallable v => exact Value.obstacle?_eq_of_provides rendered satisfied
    | arityMismatch expected given =>
      cases first : numeralObstacle? expected <;> cases second : numeralObstacle? given <;>
        simp [Outcome.obstacle?, Failure.obstacle?, Outcome.numerals, first, second]
    | notANumber glyph v =>
      obtain ⟨provided, other⟩ := satisfied
      have nothing : v.numerals = [] := by
        unfold Value.numerals
        split
        · cases other
        · rfl
      have free := Value.obstacle?_eq_of_provides rendered provided
      rw [nothing] at free
      exact free
    | _ => rfl

theorem obstacle?_eq_of_evaluate {channel : Channel} {granted : Nat} (rendered : program.obstacle? written = none)
    {before after : Progress} {outcome : Outcome Value}
    (ran : evaluate channel granted program [] before = (outcome, after)) (completed : outcome.Completed) :
    outcome.obstacle? written = outcome.numerals.findSome? numeralObstacle? := by
  have itself : Visit.LeadsTo channel ⟨granted, program, [], before⟩ ⟨granted, program, [], before⟩ := .refl
  obtain ⟨_, _, satisfied⟩ := Visit.provided itself
  change (evaluate channel granted program [] before).1.Satisfies _ _ at satisfied
  rw [ran] at satisfied
  exact Outcome.obstacle?_eq_of_satisfies rendered satisfied completed

/-- A program without long integers is never stopped by one. -/
theorem evaluate_ne_numeralTooLong (channel : Channel) (levels : Nat) (short : program.Short) (before : Progress) :
    (evaluate channel levels program [] before).1 ≠ .halted .numeralTooLong := by
  intro halted
  obtain ⟨after, stopped⟩ : ∃ after, Visit.run channel ⟨levels, program, [], before⟩ =
      (.halted .numeralTooLong, after) := ⟨_, Prod.ext halted rfl⟩
  obtain ⟨w, reached, stops⟩ := Visit.run_eq_halted_iff.mp stopped
  generalize same : Halt.numeralTooLong = h at stops
  cases stops with
  | exhausted => cases same
  | tooDeep => cases same
  | @untold _ glyph operand _ _ _ known refused =>
    subst same
    obtain rfl := UnaryOperator.glyph_eq_of_ofGlyph? known
    have said := (Visit.provided reached).1.contains (.inl ⟨operand, rfl⟩)
    have operandShort := (short.standsIn (Store.standsIn_of_contains_nil said)).child (Expr.mem_children_saying operand)
    cases channel with
    | console =>
      have writing : operand.obstacle? _ = some .numeralTooLong := refused
      rcases operandShort.obstacle?_cases with free | exhausted
      · rw [free] at writing
        cases writing
      · rw [exhausted] at writing
        cases writing
    | _ => cases refused

end

/-! ## Answers -/

theorem numeralObstacle?_cases (n : Int) :
    numeralObstacle? n = none ∨ numeralObstacle? n = some .numeralTooLong := by
  unfold numeralObstacle?
  split
  · exact .inl rfl
  · exact .inr rfl

/-- A long integer among others is an obstacle, and the only kind of obstacle that integers are. -/
theorem findSome?_numeralObstacle?_eq_some {numerals : List Int}
    (long : ∃ n ∈ numerals, numeralObstacle? n ≠ none) :
    numerals.findSome? numeralObstacle? = some .numeralTooLong := by
  cases found : numerals.findSome? numeralObstacle? with
  | none =>
    obtain ⟨n, member, stopped⟩ := long
    exact absurd (List.findSome?_eq_none_iff.mp found n member) stopped
  | some h =>
    obtain ⟨n, _, here⟩ := List.exists_of_findSome?_eq_some found
    rcases numeralObstacle?_cases n with free | stopped
    · rw [free] at here
      cases here
    · rw [stopped] at here
      exact here.symm

namespace CommandLine

variable {host : Host} {path : Path} {bytes : List UInt8} {pick frames : Nat} {program : Expr}

/-- A program that exhausts the stack while it is written is not evaluated. -/
theorem run_of_tooDeep (options : Options) (loaded : Expr.ofBytes host.reading bytes = .ok program)
    (granted : framesFor options.recursionLimit = .ok frames)
    (stopped : program.obstacle? (host.writing frames) = some .stackExhausted) :
    run host options path (.content bytes) pick = ⟨[], (Report.exhausted frames).complaint pick, .exit 1⟩ := by
  have unwritten : program.render (host.writing frames) = .error .stackExhausted := by rw [Expr.render, stopped]
  have told := reported_add_start [] [] (decide (options.verbose ≠ 0)) (Report.exhausted frames) pick
  rw [List.nil_append] at told
  rw [run_content loaded granted, evaluated, unwritten]
  exact told

/-- Nothing catches what keeps an outcome from being told. -/
theorem run_of_untold (options : Options) (loaded : Expr.ofBytes host.reading bytes = .ok program)
    (granted : framesFor options.recursionLimit = .ok frames)
    (rendered : program.obstacle? (host.writing frames) = none) {outcome : Outcome Value} {after : Progress} {h : Halt}
    (ran : evaluate options.channel (host.evaluation frames) program [] (.start .empty) = (outcome, after))
    (completed : outcome.Completed) (untold : outcome.obstacle? (host.writing frames) = some h) :
    (run host options path (.content bytes) pick).ending = .crashed (crashOf h) := by
  have written : program.render (host.writing frames) = .ok program.text := by rw [Expr.render, rendered]
  rw [run_content loaded granted, evaluated, written]
  simp only [ran]
  cases outcome with
  | success v =>
    have stopped : v.obstacle? (host.writing frames) = some h := untold
    have unshown : v.render (host.writing frames) = .error h := by rw [Value.render, stopped]
    simp only [unshown]
  | failure e =>
    have stopped : e.obstacle? (host.writing frames) = some h := untold
    simp only [stopped]
  | halted h => exact completed.elim

/-- A long integer that the answer would have to spell out keeps the run from any answer. -/
theorem run_of_long (options : Options) (loaded : Expr.ofBytes host.reading bytes = .ok program)
    (granted : framesFor options.recursionLimit = .ok frames)
    (rendered : program.obstacle? (host.writing frames) = none)
    (long : ∃ n ∈ (evaluate options.channel (host.evaluation frames) program [] (.start .empty)).1.numerals,
      numeralObstacle? n ≠ none) :
    (run host options path (.content bytes) pick).ending = .crashed .numeralTooLong := by
  cases ran : evaluate options.channel (host.evaluation frames) program [] (.start .empty) with
  | mk outcome after =>
    rw [ran] at long
    have completed : outcome.Completed := by
      cases outcome with
      | halted h =>
        obtain ⟨_, never, _⟩ := long
        cases never
      | _ => trivial
    have told := obstacle?_eq_of_evaluate rendered ran completed
    rw [findSome?_numeralObstacle?_eq_some long] at told
    exact run_of_untold options loaded granted rendered ran completed told

/-- Where the answer has no long integer to spell out, it is the one that the outcome asks for. -/
theorem run_of_short (options : Options) (loaded : Expr.ofBytes host.reading bytes = .ok program)
    (granted : framesFor options.recursionLimit = .ok frames)
    (rendered : program.obstacle? (host.writing frames) = none) {outcome : Outcome Value} {after : Progress}
    (ran : evaluate options.channel (host.evaluation frames) program [] (.start .empty) = (outcome, after))
    (numerals : ∀ n ∈ outcome.numerals, numeralObstacle? n = none) :
    run host options path (.content bytes) pick =
      .ofOutcome options frames pick program outcome after.said.toList := by
  have short := Expr.short_of_ofBytes loaded
  have unstopped := evaluate_ne_numeralTooLong options.channel (host.evaluation frames) short (.start .empty)
  rw [ran] at unstopped
  have told (completed : outcome.Completed) : outcome.obstacle? (host.writing frames) = none := by
    rw [obstacle?_eq_of_evaluate rendered ran completed]
    exact List.findSome?_eq_none_iff.mpr numerals
  refine run_eq_ofOutcome options loaded granted rendered ran ?_
  cases outcome with
  | halted h =>
    cases h with
    | stackExhausted => exact .inr rfl
    | numeralTooLong => exact absurd rfl unstopped
  | _ => exact .inl (told trivial)

theorem ending_ofOutcome (options : Options) (frames pick : Nat) (program : Expr) (outcome : Outcome Value)
    (said : List Expr) :
    (Answer.ofOutcome options frames pick program outcome said).ending = .exit 0 ∨
      (Answer.ofOutcome options frames pick program outcome said).ending = .exit 1 := by
  cases outcome with
  | success v => exact .inl rfl
  | failure e => exact .inr rfl
  | halted h => exact .inr rfl

/-! ## Streams -/

theorem encodable_complaint {issue : Issue} (first : issue.intro.Encodable)
    (others : ∀ line ∈ issue.footer, line.Encodable) (pick : Nat) : (issue.complaint pick).Encodable := by
  have rule : Text.Encodable (List.replicate 20 (lit "  -")).flatten := by
    intro c member
    obtain ⟨line, repeated, inside⟩ := List.mem_flatten.mp member
    rw [List.eq_of_mem_replicate repeated] at inside
    exact Text.encodable_lit _ c inside
  refine Text.encodable_flatMap fun line member => Text.encodable_append.mpr ⟨?_, Text.encodable_lit _⟩
  rcases List.mem_cons.mp member with rfl | member
  · exact Text.encodable_replicate_ofChar _ _
  rcases List.mem_cons.mp member with rfl | member
  · simp [Outburst.text, Outburst.choose]
  rcases List.mem_cons.mp member with rfl | member
  · exact rule
  rcases List.mem_cons.mp member with rfl | member
  · exact first
  · exact others line member

theorem encodable_exhausted (frames : Nat) (pick : Nat) : ((Report.exhausted frames).complaint pick).Encodable := by
  refine encodable_complaint ?_ (List.forall_mem_singleton.mpr (Text.encodable_lit _)) pick
  simp [Report.exhausted]

theorem encodable_log (options : Options) (encodable : program.Encodable) : (Answer.log options program).Encodable := by
  unfold Answer.log
  split <;> simp [Expr.Encodable.text encodable]

theorem encodable_talk (options : Options) {said : List Expr} (each : ∀ e ∈ said, e.Encodable) :
    (Answer.talk options said).Encodable := by
  unfold Answer.talk Channel.stream
  split
  · exact Text.encodable_nil
  · exact Text.encodable_flatMap fun e member => by simp [Expr.Encodable.text (each e member)]

/-- However the run ends, what it has printed can be encoded if the program's names and glyphs can. -/
theorem encodable_run (options : Options) (loaded : Expr.ofBytes host.reading bytes = .ok program)
    (granted : framesFor options.recursionLimit = .ok frames) (encodable : program.Encodable) :
    (run host options path (.content bytes) pick).stdout.Encodable ∧
      (run host options path (.content bytes) pick).stderr.Encodable := by
  obtain ⟨after, satisfied⟩ := evaluate_encodable options.channel (host.evaluation frames) [] encodable .start_empty
  have log := encodable_log options encodable
  have talk := encodable_talk options after.said
  have deep := encodable_exhausted frames pick
  rw [run_content loaded granted, evaluated]
  split
  · simp [reported_add_start, deep]
  · exact ⟨Text.encodable_nil, Text.encodable_nil⟩
  · next text written =>
    obtain rfl := Expr.text_eq_of_render written
    simp only [printed_info, stdout_eq]
    generalize evaluate options.channel (host.evaluation frames) program [] (.start .empty) = ended at satisfied talk ⊢
    obtain ⟨outcome, after⟩ := ended
    cases outcome with
    | halted h =>
      cases h with
      | stackExhausted => simp [reported_add_start, log, talk, deep]
      | numeralTooLong => exact ⟨talk, log⟩
    | failure e =>
      have described : Text.Encodable e.description := satisfied
      dsimp only
      split
      · exact ⟨talk, log⟩
      · have kind : Text.Encodable e.kind := by cases e <;> exact Text.encodable_lit _
        have complaint : Text.Encodable ((Report.failed e e.description).complaint pick) :=
          encodable_complaint (by simp [Report.failed, kind]) (List.forall_mem_singleton.mpr described) pick
        simp [reported_add_start, log, talk, complaint]
    | success v =>
      have shown := Value.Encodable.shown satisfied
      dsimp only
      split
      · exact ⟨talk, log⟩
      · next text written =>
        obtain rfl := Value.shown_eq_of_render written
        simp [log, talk, shown]

end CommandLine

/-- Says a name and calls a number. -/
def sayThenCall : Expr :=
  .sequence (.unary (lit "say") (.var (lit "x"))) [.apply (.literal (.number (.integer 1))) []]

theorem evaluate_sayThenCall : evaluate .console (levels standardFrames) sayThenCall [] (.start .empty) =
    (.failure (.notCallable (.atom (.number (.integer 1)))), ⟨.empty, #[.var (lit "x")]⟩) := rfl

/-- Two squared sixteen times, by a function that does another one twice. -/
def tower : Expr :=
  let again : Expr := .apply (.var (lit "f")) [.apply (.var (lit "f")) [.var (lit "x")]]
  let twice : Expr := .lambda [lit "f"] (.lambda [lit "x"] again)
  .letIn [(lit "s", .lambda [lit "n"] (.binary (lit "*") (.var (lit "n")) (.var (lit "n")))), (lit "d", twice)]
    (.apply (.apply (.apply (.apply (.var (lit "d")) [.var (lit "d")]) [.var (lit "d")]) [.var (lit "s")])
      [.literal (.number (.integer 2))])

theorem ofBytes_tower : Expr.ofBytes standardFrames (Utf8.encode tower.json) = .ok tower :=
  Expr.ofBytes_encode_json (by decide +kernel) (by decide +kernel) (by decide +kernel) (by decide +kernel) (by decide)

end CallByValue
