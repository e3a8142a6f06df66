import CallByValue.Surface

/-!
# Writing within frames

What stops an expression from being written stops its visit, or is a literal that is
too long, or stops one of its parts, for which fewer frames are left. So frames that
suffice for the whole suffice for what is inside, and more frames never hurt.
-/

namespace CallByValue

theorem findSome?_cons_eq_or {α β : Type} (f : α → Option β) (a : α) (rest : List α) :
    (a :: rest).findSome? f = (f a).or (rest.findSome? f) := by
  rw [List.findSome?_cons]
  cases f a <;> rfl

namespace Expr

/-- The expressions directly inside an expression, in the order of the text, each with the frames to its visit. -/
def steps : Expr → List (Nat × Expr)
  | .literal _ => []
  | .var _ => []
  | .binary _ a b => [(plainStep, a), (plainStep, b)]
  | .unary _ a => [(plainStep, a)]
  | .conditional a b c => [(mappedStep, a), (mappedStep, b), (mappedStep, c)]
  | .lambda _ a => [(plainStep, a)]
  | .apply f as => (f :: as).map (generatedStep, ·)
  | .letIn bs a => bs.map (fun b => (clauseStep, b.2)) ++ [(bodyStep, a)]
  | .letRec bs a => bs.map (fun b => (clauseStep, b.2)) ++ [(bodyStep, a)]
  | .sequence a as => (a :: as).map (mappedStep, ·)
  | .fix a => [(plainStep, a)]

/-- The frames that a visit takes even if nothing is inside. -/
def ownFrames : Expr → Nat
  | .literal a => literalFrames a
  | _ => plainStep

/-- What stops an expression from being written by itself, however many frames are left. -/
def ownObstacle? : Expr → Option Halt
  | .literal a => a.obstacle?
  | _ => none

theorem depth_le_depthOfAll {e : Expr} {es : List Expr} (member : e ∈ es) : e.depth ≤ depthOfAll es := by
  induction es with
  | nil => cases member
  | cons f es ih =>
    rw [depthOfAll]
    rcases List.mem_cons.mp member with rfl | later
    · exact Nat.le_max_left _ _
    · exact Nat.le_trans (ih later) (Nat.le_max_right _ _)

theorem depth_le_depthOfBindings {b : Text × Expr} {bs : List (Text × Expr)} (member : b ∈ bs) :
    b.2.depth ≤ depthOfBindings bs := by
  induction bs with
  | nil => cases member
  | cons c bs ih =>
    rw [depthOfBindings]
    rcases List.mem_cons.mp member with rfl | later
    · exact Nat.le_max_left _ _
    · exact Nat.le_trans (ih later) (Nat.le_max_right _ _)

/-- No step takes fewer frames than a plain one or more than one to a clause, and each leads to something less deep. -/
theorem bounds_of_mem_steps {e : Expr} {part : Nat × Expr} (member : part ∈ e.steps) :
    plainStep ≤ part.1 ∧ part.1 ≤ clauseStep ∧ part.2.depth < e.depth := by
  cases e <;>
    simp only [steps, List.mem_cons, List.mem_append, List.mem_map, List.not_mem_nil, or_false] at member <;>
    grind [plainStep, mappedStep, generatedStep, bodyStep, clauseStep, depth, → depth_le_depthOfAll,
      → depth_le_depthOfBindings]

theorem bounds_ownFrames (e : Expr) : plainStep ≤ e.ownFrames ∧ e.ownFrames ≤ clauseStep := by
  cases e with
  | literal a => cases a <;> simp [ownFrames, literalFrames, plainStep, clauseStep]
  | _ => simp [ownFrames, plainStep, clauseStep]

theorem fewer_of_mem_steps {frames : Nat} {e : Expr} (room : e.ownFrames ≤ frames) {part : Nat × Expr}
    (member : part ∈ e.steps) : frames - part.1 < frames := by
  obtain ⟨own, _⟩ := e.bounds_ownFrames
  obtain ⟨step, _, _⟩ := bounds_of_mem_steps member
  unfold plainStep at own step
  omega

theorem obstacleInAll?_eq (frames step : Nat) (es : List Expr) :
    obstacleInAll? (frames - step) es =
      (es.map (step, ·)).findSome? fun part => part.2.obstacleWithin? (frames - part.1) := by
  induction es with
  | nil => rfl
  | cons e es ih => rw [obstacleInAll?, ih, List.map_cons, findSome?_cons_eq_or]

theorem obstacleInBindings?_eq (frames : Nat) (bs : List (Text × Expr)) :
    obstacleInBindings? (frames - clauseStep) bs =
      (bs.map fun b => (clauseStep, b.2)).findSome? fun part => part.2.obstacleWithin? (frames - part.1) := by
  induction bs with
  | nil => rfl
  | cons b bs ih => rw [obstacleInBindings?, ih, List.map_cons, findSome?_cons_eq_or]

/-- Writing stops at the visit, at the expression itself or at the first part that cannot be written. -/
theorem obstacleWithin?_eq (frames : Nat) (e : Expr) :
    e.obstacleWithin? frames =
      if frames < e.ownFrames then some .stackExhausted
      else e.ownObstacle?.or (e.steps.findSome? fun part => part.2.obstacleWithin? (frames - part.1)) := by
  cases e <;>
    simp [obstacleWithin?, ownFrames, steps, ownObstacle?, obstacleInAll?_eq _ generatedStep,
      obstacleInAll?_eq _ mappedStep, obstacleInBindings?_eq, List.findSome?_append, findSome?_cons_eq_or]

/-- An expression can be written if its visit has its frames and everything inside can be written in what is left. -/
theorem obstacleWithin?_eq_none_iff {frames : Nat} {e : Expr} :
    e.obstacleWithin? frames = none ↔
      e.ownFrames ≤ frames ∧ e.ownObstacle? = none ∧
        ∀ part ∈ e.steps, part.2.obstacleWithin? (frames - part.1) = none := by
  rw [obstacleWithin?_eq]
  split
  · next few => simp [Nat.not_le.mpr few]
  · next room => simp [Nat.not_lt.mp room]

theorem obstacleWithin?_mono {frames more : Nat} (le : frames ≤ more) {e : Expr}
    (written : e.obstacleWithin? frames = none) : e.obstacleWithin? more = none := by
  induction frames using Nat.strongRecOn generalizing more e with
  | ind frames ih =>
    obtain ⟨room, own, inside⟩ := obstacleWithin?_eq_none_iff.mp written
    refine obstacleWithin?_eq_none_iff.mpr ⟨Nat.le_trans room le, own, fun part member => ?_⟩
    exact ih _ (fewer_of_mem_steps room member) (Nat.sub_le_sub_right le part.1) (inside part member)

theorem obstacle?_mono {levels more : Nat} (le : levels ≤ more) {e : Expr} (written : e.obstacle? levels = none) :
    e.obstacle? more = none :=
  obstacleWithin?_mono (Nat.mul_le_mul_left 2 le) written

end Expr

end CallByValue
