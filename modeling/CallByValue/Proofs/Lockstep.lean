import CallByValue.Proofs.Correspondence
import CallByValue.Proofs.Soundness
import CallByValue.Proofs.Tolerance

/-!
# Lockstep

Two evaluations of matching code over environments whose frames are paired. The
runs make their frames in one order, and every frame that one makes is paired
with the one that the other makes. So they go together, one rule for each way of
putting evaluations together, and come to outcomes that match.
-/

namespace CallByValue

/-- Which frames of two stores stand for each other. -/
abbrev Pairing := Nat → Nat → Prop

namespace Pairing

/-- A pairing continued: so many frames from two numbers on are paired, in the order in which they are made. -/
def extended (pairing : Pairing) (n n' count : Nat) : Pairing :=
  fun i j => pairing i j ∨ ∃ k, k < count ∧ i = n + k ∧ j = n' + k

/-- Every frame that is paired has been made. -/
def Made (pairing : Pairing) (n n' : Nat) : Prop := ∀ i j, pairing i j → i < n ∧ j < n'

variable {pairing : Pairing} {n n' : Nat}

theorem Made.extended (made : pairing.Made n n') (count : Nat) :
    (pairing.extended n n' count).Made (n + count) (n' + count) := by
  rintro i j (old | ⟨k, less, rfl, rfl⟩)
  · exact ⟨Nat.lt_add_right count (made _ _ old).1, Nat.lt_add_right count (made _ _ old).2⟩
  · exact ⟨Nat.add_lt_add_left less n, Nat.add_lt_add_left less n'⟩

theorem extended_mono {count more : Nat} (le : count ≤ more) (i j : Nat) (pair : pairing.extended n n' count i j) :
    pairing.extended n n' more i j :=
  pair.imp id fun ⟨k, less, left, right⟩ => ⟨k, less.trans_le le, left, right⟩

/-- Frames that have been made, paired one to one, stay so when the pairing is continued. -/
theorem oneToOne_extended (oneToOne : Relator.BiUnique pairing) (made : pairing.Made n n') (count : Nat) :
    Relator.BiUnique (pairing.extended n n' count) := by
  constructor
  · rintro i j i' (old | ⟨k, _, rfl, rfl⟩) (old' | ⟨k', _, rfl, same⟩)
    · exact oneToOne.1 old old'
    · have bound := (made _ _ old).2
      omega
    · have bound := (made _ _ old').2
      omega
    · omega
  · rintro i j j' (old | ⟨k, _, rfl, rfl⟩) (old' | ⟨k', _, same, rfl⟩)
    · exact oneToOne.2 old old'
    · have bound := (made _ _ old).1
      omega
    · have bound := (made _ _ old').1
      omega
    · omega

end Pairing

/-- Two runs about to begin: what may differ between them, the NaNs that they make included, and which of the frames
    that have been made stand for each other, one to one. -/
structure Tandem where
  tolerance : Tolerance
  pairing : Pairing
  left : Progress
  right : Progress
  oneToOne : Relator.BiUnique pairing
  made : pairing.Made left.store.frames.size right.store.frames.size
  fresh : tolerance.since ≤ left.store.nextMark ∧ tolerance.since ≤ right.store.nextMark

namespace Tandem

/-- The frames that stand for each other once either run has made so many. -/
def paired (tandem : Tandem) (count : Nat) : Pairing :=
  tandem.pairing.extended tandem.left.store.frames.size tandem.right.store.frames.size count

def Values (tandem : Tandem) (count : Nat) : Value → Value → Prop :=
  Value.Matches tandem.tolerance (tandem.paired count)

def Failures (tandem : Tandem) (count : Nat) : Failure → Failure → Prop := Failure.Rel (tandem.Values count)

def Envs (tandem : Tandem) (count : Nat) : Env → Env → Prop := List.Forall₂ (tandem.paired count)

/-- Both runs have made so many frames, paired frames bind every name to values that match, and expressions
    that match have been said. -/
structure Abreast (tandem : Tandem) (count : Nat) (now now' : Progress) : Prop where
  left : now.store.frames.size = tandem.left.store.frames.size + count
  right : now'.store.frames.size = tandem.right.store.frames.size + count
  frames : ∀ {i j}, tandem.paired count i j → ∀ x,
    Option.Rel (tandem.Values count) ((now.store.bindings i).find? x) ((now'.store.bindings j).find? x)
  said : ∃ spoken spoken', now.said.toList = tandem.left.said.toList ++ spoken ∧
    now'.said.toList = tandem.right.said.toList ++ spoken' ∧ List.Forall₂ tandem.tolerance.quotes spoken spoken'
  fresh : tandem.tolerance.since ≤ now.store.nextMark ∧ tandem.tolerance.since ≤ now'.store.nextMark

/-- Once so many frames have been made, two evaluations take runs that are abreast to where they are abreast
    again, with matching outcomes. -/
def Together {α β : Type} (tandem : Tandem) (since : Nat) (m : Eval α) (n : Eval β) (good : Nat → α → β → Prop) :
    Prop :=
  ∀ count now now', since ≤ count → tandem.Abreast count now now' →
    ∃ after, count ≤ after ∧ tandem.Abreast after (m now).2 (n now').2 ∧
      (m now).1.Rel (good after) (tandem.Failures after) (n now').1

variable {tandem : Tandem} {count more since : Nat} {now now' : Progress}

theorem paired_oneToOne (tandem : Tandem) {count : Nat} : Relator.BiUnique (tandem.paired count) :=
  Pairing.oneToOne_extended tandem.oneToOne tandem.made count

theorem Values.later {v w : Value} (values : tandem.Values count v w) (le : count ≤ more) : tandem.Values more v w :=
  Value.Matches.imp (Pairing.extended_mono le) values

theorem Failures.later {e f : Failure} (failures : tandem.Failures count e f) (le : count ≤ more) :
    tandem.Failures more e f :=
  Failure.Rel.imp (fun _ _ values => Values.later values le) failures

theorem Envs.later {a b : Env} (envs : tandem.Envs count a b) (le : count ≤ more) : tandem.Envs more a b :=
  List.Forall₂.imp (Pairing.extended_mono le) envs

theorem Abreast.next (abreast : tandem.Abreast count now now') :
    tandem.paired (count + 1) now.store.frames.size now'.store.frames.size :=
  .inr ⟨count, Nat.lt_succ_self count, abreast.left, abreast.right⟩

theorem Abreast.tick (abreast : tandem.Abreast count now now') : tandem.Abreast count now.tick now'.tick :=
  ⟨abreast.left, abreast.right, abreast.frames, abreast.said, abreast.fresh.imp Nat.le_succ_of_le Nat.le_succ_of_le⟩

theorem Abreast.tell (abreast : tandem.Abreast count now now') {e f : Expr} (quotes : tandem.tolerance.quotes e f) :
    tandem.Abreast count (now.tell e) (now'.tell f) := by
  obtain ⟨spoken, spoken', left, right, alike⟩ := abreast.said
  refine ⟨abreast.left, abreast.right, abreast.frames, ⟨spoken ++ [e], spoken' ++ [f], ?_, ?_, ?_⟩, abreast.fresh⟩
  · simp [Progress.tell, left]
  · simp [Progress.tell, right]
  · exact List.rel_append alike (.cons quotes .nil)

/-- Of the frames that are paired now, all but the newest were paired before. -/
theorem Abreast.paired_of_ne (abreast : tandem.Abreast count now now') {i j : Nat}
    (pair : tandem.paired (count + 1) i j) (older : i ≠ now.store.frames.size) : tandem.paired count i j := by
  rcases pair with old | ⟨k, less, left, right⟩
  · exact .inl old
  · have size := abreast.left
    exact .inr ⟨k, by omega, left, right⟩

/-- Frames with entries that match may be made on both sides. -/
theorem Abreast.push (abreast : tandem.Abreast count now now') {table table' : Table Value}
    (entries : ∀ x, Option.Rel (tandem.Values (count + 1)) (table.find? x) (table'.find? x)) :
    tandem.Abreast (count + 1) (now.push table) (now'.push table') := by
  refine ⟨?_, ?_, fun {i j} pair x => ?_, abreast.said, abreast.fresh⟩
  · rw [Progress.push, Store.size_push, abreast.left, Nat.add_assoc]
  · rw [Progress.push, Store.size_push, abreast.right, Nat.add_assoc]
  · by_cases newest : i = now.store.frames.size
    · obtain rfl : j = now'.store.frames.size := tandem.paired_oneToOne.2 pair (newest ▸ abreast.next)
      rw [newest, Progress.push, Progress.push, Store.bindings_push_size, Store.bindings_push_size]
      exact entries x
    · have older : j ≠ now'.store.frames.size := by
        rintro rfl
        exact newest (tandem.paired_oneToOne.1 pair abreast.next)
      rw [Progress.push, Progress.push, Store.bindings_push_ne newest, Store.bindings_push_ne older]
      have entry := abreast.frames (abreast.paired_of_ne pair newest) x
      exact Option.Rel.imp (fun _ _ values => Values.later values (Nat.le_succ count)) entry

/-- Environments of paired frames give every name values that match. -/
theorem Abreast.lookup (abreast : tandem.Abreast count now now') {a b : Env} (envs : tandem.Envs count a b) (x : Text) :
    Option.Rel (tandem.Values count) (now.store.lookup x a) (now'.store.lookup x b) := by
  induction envs with
  | nil => exact .none
  | cons pair outer ih =>
    rw [Store.lookup_cons, Store.lookup_cons]
    have entry := abreast.frames pair x
    generalize (now.store.bindings _).find? x = v at entry ⊢
    generalize (now'.store.bindings _).find? x = w at entry ⊢
    cases entry with
    | some values => exact .some values
    | none => exact ih

namespace Together

variable {α β γ δ : Type}

theorem later {m : Eval α} {n : Eval β} {good : Nat → α → β → Prop} (together : tandem.Together since m n good)
    (le : since ≤ more) : tandem.Together more m n good :=
  fun count now now' further => together count now now' (le.trans further)

theorem pure {a : α} {b : β} {good : Nat → α → β → Prop} (holds : ∀ count, since ≤ count → good count a b) :
    tandem.Together since (Pure.pure a) (Pure.pure b) good :=
  fun count _ _ le abreast => ⟨count, le_rfl, abreast, .success (holds count le)⟩

theorem failure {e f : Failure} {good : Nat → α → β → Prop} (blamed : tandem.Failures since e f) :
    tandem.Together since (.ended (.failure e)) (.ended (.failure f)) good :=
  fun count _ _ le abreast => ⟨count, le_rfl, abreast, .failure (blamed.later le)⟩

theorem halted {h : Halt} {good : Nat → α → β → Prop} :
    tandem.Together since (.ended (.halted h)) (.ended (.halted h)) good :=
  fun count _ _ _ abreast => ⟨count, le_rfl, abreast, .halted h⟩

theorem bind {m : Eval α} {n : Eval β} {rest : α → Eval γ} {rest' : β → Eval δ} {good : Nat → α → β → Prop}
    {better : Nat → γ → δ → Prop} (first : tandem.Together since m n good)
    (next : ∀ count a b, since ≤ count → good count a b → tandem.Together count (rest a) (rest' b) better) :
    tandem.Together since (m >>= rest) (n >>= rest') better := by
  intro count now now' le abreast
  obtain ⟨after, further, still, outcomes⟩ := first count now now' le abreast
  cases run : m now with
  | mk outcome progress =>
    cases run' : n now' with
    | mk outcome' progress' =>
      rw [run, run'] at still outcomes
      cases outcomes with
      | success holds =>
        rw [Eval.bind_of_success run, Eval.bind_of_success run']
        obtain ⟨last, more, ending⟩ := next after _ _ (le.trans further) holds after _ _ le_rfl still
        exact ⟨last, further.trans more, ending⟩
      | failure blamed =>
        rw [Eval.bind_of_failure run, Eval.bind_of_failure run']
        exact ⟨after, further, still, .failure blamed⟩
      | halted h =>
        rw [Eval.bind_of_halted run, Eval.bind_of_halted run']
        exact ⟨after, further, still, .halted h⟩

/-- Values that match, in order. -/
def All (tandem : Tandem) (count : Nat) : List Value → List Value → Prop := List.Forall₂ (tandem.Values count)

theorem each {f g : Expr → Eval Value} {es fs : List Expr}
    (all : List.Forall₂ (fun e e' => tandem.Together since (f e) (g e') tandem.Values) es fs) :
    tandem.Together since (Eval.each f es) (Eval.each g fs) (All tandem) := by
  induction all with
  | nil => exact .pure fun _ _ => .nil
  | cons head _ ih =>
    refine .bind head fun count v w le values => ?_
    refine .bind (ih.later le) fun last vs ws further others => ?_
    exact .pure fun after ending => .cons (values.later (further.trans ending))
      (others.imp fun _ _ inner => Values.later inner ending)

theorem last {f g : Expr → Eval Value} {e e' : Expr} {es fs : List Expr}
    (first : tandem.Together since (f e) (g e') tandem.Values)
    (others : List.Forall₂ (fun e e' => tandem.Together since (f e) (g e') tandem.Values) es fs) :
    tandem.Together since (Eval.last f e es) (Eval.last g e' fs) tandem.Values := by
  induction others generalizing e e' with
  | nil => exact first
  | cons head _ ih => exact .bind first fun _ _ _ le _ => (ih head).later le

theorem lookup {a b : Env} (envs : tandem.Envs since a b) (x : Text) :
    tandem.Together since (Eval.lookup x a) (Eval.lookup x b) tandem.Values := by
  intro count now now' le abreast
  rw [Eval.lookup_apply, Eval.lookup_apply]
  have found := abreast.lookup (envs.later le) x
  generalize now.store.lookup x a = v at found ⊢
  generalize now'.store.lookup x b = w at found ⊢
  cases found with
  | some values => exact ⟨count, le_rfl, abreast, .success values⟩
  | none => exact ⟨count, le_rfl, abreast, .failure (.unbound x)⟩

theorem operate (op : BinaryOperator) (levels : Nat) {v w v' w' : Value} (first : tandem.Values since v w)
    (second : tandem.Values since v' w') :
    tandem.Together since (Eval.operate op levels v v') (Eval.operate op levels w w') tandem.Values :=
  fun count _ _ le abreast => ⟨count, le_rfl, abreast.tick,
    op.apply_matches levels abreast.fresh.1 abreast.fresh.2 tandem.paired_oneToOne (first.later le) (second.later le)⟩

theorem say (channel : Channel) (levels : Nat) {e f : Expr} (quotes : tandem.tolerance.quotes e f) :
    tandem.Together since (Eval.say channel levels e) (Eval.say channel levels f) tandem.Values := by
  intro count now now' _ abreast
  have same : channel.obstacle? levels e = channel.obstacle? levels f := by
    cases channel with
    | console => exact (Expr.shape_eq_of_same (tandem.tolerance.quote_same quotes)).2 _
    | _ => rfl
  rw [Eval.say_apply, Eval.say_apply, same]
  cases channel.obstacle? levels f with
  | some h => exact ⟨count, le_rfl, abreast, .halted h⟩
  | none => exact ⟨count, le_rfl, abreast.tell quotes, .success (.quoted quotes)⟩

theorem extend {a b : Env} (envs : tandem.Envs since a b) (names : List Text) {vs ws : List Value}
    (given : All tandem since vs ws) :
    tandem.Together since (Eval.extend a (names.zip vs)) (Eval.extend b (names.zip ws)) tandem.Envs := by
  intro count now now' le abreast
  have later : since ≤ count + 1 := Nat.le_succ_of_le le
  have values : All tandem (count + 1) vs ws := given.imp fun _ _ inner => Values.later inner later
  exact ⟨count + 1, Nat.le_succ count, abreast.push (Table.find?_ofPairs_rel (Table.pairs_zip names values)),
    .success (.cons abreast.next (envs.later later))⟩

/-- Closures of matching lambdas match over either new frame because these frames are paired. -/
theorem extendRecursive {a b : Env} (envs : tandem.Envs since a b) {ls ms : List (Text × List Text × Expr)}
    (lambdas : List.Forall₂ (Expr.LambdasMatch tandem.tolerance.literals tandem.tolerance.quotes) ls ms) :
    tandem.Together since (Eval.extendRecursive a ls) (Eval.extendRecursive b ms) tandem.Envs := by
  intro count now now' le abreast
  have inner : tandem.Envs (count + 1) (now.store.next a) (now'.store.next b) :=
    .cons abreast.next (envs.later (Nat.le_succ_of_le le))
  refine ⟨count + 1, Nat.le_succ count, abreast.push (Table.find?_ofPairs_rel ?_), .success inner⟩
  refine List.forall₂_map_left_iff.mpr (List.forall₂_map_right_iff.mpr (lambdas.imp ?_))
  rintro ⟨x, ps, body⟩ ⟨y, qs, body'⟩ ⟨names, params, bodies⟩
  exact ⟨names, .closure ⟨params, bodies, inner⟩⟩

end Together

/-! ## Evaluation -/

/-- With so many levels, matching code goes together over environments of paired frames. -/
def Goes (tandem : Tandem) (channel : Channel) (levels : Nat) : Prop :=
  ∀ {since : Nat} {e f : Expr} {a b : Env}, tandem.tolerance.Code e f → tandem.Envs since a b →
    tandem.Together since (evaluate channel levels e a) (evaluate channel levels f b) tandem.Values

section
variable {channel : Channel} {levels : Nat}

theorem Goes.each (goes : tandem.Goes channel levels) {es fs : List Expr} {a b : Env}
    (all : List.Forall₂ tandem.tolerance.Code es fs) (envs : tandem.Envs since a b) :
    tandem.Together since (evaluateEach channel levels es a) (evaluateEach channel levels fs b)
      (Together.All tandem) :=
  .each (all.imp fun _ _ code => goes code envs)

theorem Goes.call (goes : tandem.Goes channel levels) {c d : Closure}
    (closures : c.Matches tandem.tolerance (tandem.paired since) d) {vs ws : List Value}
    (given : Together.All tandem since vs ws) :
    tandem.Together since (c.call channel levels vs) (d.call channel levels ws) tandem.Values := by
  have arity : c.arity = d.arity := congrArg List.length closures.params
  have length : vs.length = ws.length := given.length_eq
  unfold Closure.call
  rw [arity, length, closures.params]
  split
  · exact .bind (.extend closures.captured d.params given) fun _ _ _ _ inner => goes closures.bodies inner
  · exact .failure (.arityMismatch _ _)

theorem Goes.callWith (goes : tandem.Goes channel levels) {v w : Value} (values : tandem.Values since v w)
    {arguments arguments' : Eval (List Value)}
    (given : tandem.Together since arguments arguments' (Together.All tandem)) :
    tandem.Together since (v.call channel levels arguments) (w.call channel levels arguments') tandem.Values := by
  cases values with
  | atom forms => exact .failure (.notCallable (.atom forms))
  | quoted quotes => exact .failure (.notCallable (.quoted quotes))
  | closure closures =>
    refine .bind given fun count vs ws le inner => goes.call ?_ inner
    exact ⟨closures.params, closures.bodies, Envs.later closures.captured le⟩

/-- With one more level every form goes together, as its parts do. -/
theorem Goes.succ (goes : tandem.Goes channel levels) : tandem.Goes channel (levels + 1) := by
  intro since e f a b code envs
  cases code with
  | literal values => exact .pure fun _ _ => .atom (tandem.tolerance.literal_form values)
  | var x => exact .lookup envs x
  | binary g left right =>
    rw [evaluate_binary, evaluate_binary]
    cases BinaryOperator.ofGlyph? g with
    | none => exact .failure (.unknownOperator g)
    | some op =>
      refine .bind (goes left envs) fun count v w le first => ?_
      refine .bind (goes right (envs.later le)) fun after v' w' further second => ?_
      exact .operate op levels (first.later further) second
  | say operands => exact .say channel levels operands
  | @unary g _ _ other operands =>
    rw [evaluate_unary, evaluate_unary]
    cases known : UnaryOperator.ofGlyph? g with
    | none => exact .failure (.unknownOperator g)
    | some op =>
      cases op with
      | say => exact absurd (UnaryOperator.glyph_eq_of_ofGlyph? known).symm other
      | not =>
        refine .bind (goes operands envs) fun _ v w _ values => .pure fun _ _ => ?_
        rw [Value.negated, Value.negated, Value.Matches.isTrue_eq values]
        exact .atom rfl
      | isZero =>
        refine .bind (goes operands envs) fun _ v w _ values => .pure fun _ _ => ?_
        rw [Value.Matches.zeroTest_eq values]
        exact .atom rfl
  | conditional tests yes no =>
    rw [evaluate_conditional, evaluate_conditional]
    refine .bind (goes tests envs) fun count v w le values => ?_
    rw [Value.Matches.isTrue_eq values]
    split
    · exact goes yes (envs.later le)
    · exact goes no (envs.later le)
  | lambda ps bodies => exact .pure fun _ le => .closure ⟨rfl, bodies, envs.later le⟩
  | apply callees args =>
    rw [evaluate_apply, evaluate_apply]
    refine .bind (goes callees envs) fun count v w le values => ?_
    exact goes.callWith values (goes.each args.forall₂ (envs.later le))
  | letIn bound bodies =>
    rw [evaluate_letIn, evaluate_letIn, bound.names_eq]
    refine .bind (goes.each bound.forall₂ envs) fun count vs ws le given => ?_
    exact .bind (.extend (envs.later le) _ given) fun _ _ _ _ inner => goes bodies inner
  | letRec bound bodies =>
    rw [evaluate_letRec, evaluate_letRec]
    rcases bound.lambdasOf_cases with ⟨name, left, right⟩ | ⟨ls, ms, left, right, lambdas⟩
    · rw [left, right]
      exact .failure (.notAFunction name)
    · rw [left, right]
      exact .bind (.extendRecursive envs lambdas) fun _ _ _ _ inner => goes bodies inner
  | sequence first rest => exact .last (goes first envs) (rest.forall₂.imp fun _ _ code => goes code envs)
  | fix functionals => exact goes functionals.fixedPoint envs

end

theorem goes (tandem : Tandem) (channel : Channel) (levels : Nat) : tandem.Goes channel levels := by
  induction levels with
  | zero => exact fun _ _ => .halted
  | succ levels ih => exact ih.succ

/-- Runs begin abreast if the frames that are paired then bind every name to values that match. -/
theorem abreast_start (tandem : Tandem)
    (entries : ∀ {i j}, tandem.pairing i j → ∀ x, Option.Rel (Value.Matches tandem.tolerance tandem.pairing)
      ((tandem.left.store.bindings i).find? x) ((tandem.right.store.bindings j).find? x)) :
    tandem.Abreast 0 tandem.left tandem.right := by
  refine ⟨rfl, rfl, ?_, ⟨[], [], by simp, by simp, .nil⟩, tandem.fresh⟩
  rintro i j (pair | ⟨k, none, _⟩) x
  · exact Option.Rel.imp (fun _ _ values => values.imp fun _ _ => .inl) (entries pair x)
  · exact absurd none (Nat.not_lt_zero k)

section
variable {tolerance : Tolerance} {store : Store} {pairing : Pairing} {before before' : Progress}

/-- Two runs that both begin when the frames of one store have been made, some of which stand for each other. -/
def ofStore (tolerance : Tolerance) (oneToOne : Relator.BiUnique pairing)
    (made : pairing.Made store.frames.size store.frames.size) (grown : store.GrowsTo before.store)
    (grown' : store.GrowsTo before'.store)
    (fresh : tolerance.since ≤ before.store.nextMark ∧ tolerance.since ≤ before'.store.nextMark) : Tandem where
  tolerance := tolerance
  pairing := pairing
  left := before
  right := before'
  oneToOne := oneToOne
  made i j pair := ⟨(made i j pair).1.trans_le grown.size_le, (made i j pair).2.trans_le grown'.size_le⟩
  fresh := fresh

theorem abreast_ofStore (oneToOne : Relator.BiUnique pairing) (made : pairing.Made store.frames.size store.frames.size)
    (grown : store.GrowsTo before.store) (grown' : store.GrowsTo before'.store)
    (fresh : tolerance.since ≤ before.store.nextMark ∧ tolerance.since ≤ before'.store.nextMark)
    (entries : ∀ {i j}, pairing i j → ∀ x, Option.Rel (Value.Matches tolerance pairing)
      ((store.bindings i).find? x) ((store.bindings j).find? x)) :
    (ofStore tolerance oneToOne made grown grown' fresh).Abreast 0 before before' := by
  refine abreast_start _ fun {i j} pair x => ?_
  obtain ⟨left, right⟩ := made i j pair
  have entry := entries pair x
  rw [← grown.bindings_eq left, ← grown'.bindings_eq right] at entry
  exact entry

end

end Tandem

end CallByValue
