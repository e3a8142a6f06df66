import CallByValue.Expr

/-!
# The surface notation

Expressions in parentheses. Writing can be stopped by the host: every form takes
some of the frames that are left before its parts are written, and a literal integer
may be too long.
-/

namespace CallByValue.Expr

/-- Parts in parentheses, blanks between them. -/
def parenthesized (parts : List Text) : Text := lit "(" ++ Text.spaced parts ++ lit ")"

mutual

/-- An expression in the surface notation. -/
def text : Expr → Text
  | .literal a => a.surface
  | .var x => x
  | .binary g a b => parenthesized [g, text a, text b]
  | .unary g a => parenthesized [g, text a]
  | .conditional a b c => parenthesized [lit "if", text a, text b, text c]
  | .lambda ps a => parenthesized [lit "lambda", parenthesized ps, text a]
  | .apply f as => parenthesized (text f :: texts as)
  | .letIn bs a => parenthesized [lit "let", parenthesized (clauses bs), text a]
  | .letRec bs a => parenthesized [lit "letrec", parenthesized (clauses bs), text a]
  | .sequence a as => parenthesized (lit "begin" :: text a :: texts as)
  | .fix a => parenthesized [lit "fix", text a]

/-- The texts of a list of expressions. -/
def texts : List Expr → List Text
  | [] => []
  | a :: as => text a :: texts as

/-- The texts of a list of bindings. -/
def clauses : List (Text × Expr) → List Text
  | [] => []
  | (x, a) :: as => parenthesized [x, text a] :: clauses as

end

/-- The frames from the visit of a form to the visit of a part, where nothing stands between them. -/
def plainStep : Nat := 2

/-- The frames to a part of a form whose parts are mapped over. -/
def mappedStep : Nat := 3

/-- The frames to a part of a form that has its parts generated. -/
def generatedStep : Nat := 4

/-- The frames to the body of a form that leaves the writing of bindings to another function. -/
def bodyStep : Nat := 3

/-- The frames to what is bound there: the clauses are generated. -/
def clauseStep : Nat := 5

/-- The frames that the visit of a literal takes, which another function writes: texts it leaves to the writer of
    JSON. -/
def literalFrames : Atom → Nat
  | .text _ => 5
  | _ => 3

mutual

/-- What stops an expression from being written within so many frames, if anything does: the first
    obstacle in the order of the text. -/
def obstacleWithin? (frames : Nat) : Expr → Option Halt
  | .literal a => if frames < literalFrames a then some .stackExhausted else a.obstacle?
  | .var _ => if frames < plainStep then some .stackExhausted else none
  | .binary _ a b =>
    if frames < plainStep then some .stackExhausted
    else (obstacleWithin? (frames - plainStep) a).or (obstacleWithin? (frames - plainStep) b)
  | .unary _ a =>
    if frames < plainStep then some .stackExhausted else obstacleWithin? (frames - plainStep) a
  | .conditional a b c =>
    if frames < plainStep then some .stackExhausted
    else
      (obstacleWithin? (frames - mappedStep) a).or
        ((obstacleWithin? (frames - mappedStep) b).or (obstacleWithin? (frames - mappedStep) c))
  | .lambda _ a =>
    if frames < plainStep then some .stackExhausted else obstacleWithin? (frames - plainStep) a
  | .apply f as =>
    if frames < plainStep then some .stackExhausted
    else (obstacleWithin? (frames - generatedStep) f).or (obstacleInAll? (frames - generatedStep) as)
  | .letIn bs a =>
    if frames < plainStep then some .stackExhausted
    else (obstacleInBindings? (frames - clauseStep) bs).or (obstacleWithin? (frames - bodyStep) a)
  | .letRec bs a =>
    if frames < plainStep then some .stackExhausted
    else (obstacleInBindings? (frames - clauseStep) bs).or (obstacleWithin? (frames - bodyStep) a)
  | .sequence a as =>
    if frames < plainStep then some .stackExhausted
    else (obstacleWithin? (frames - mappedStep) a).or (obstacleInAll? (frames - mappedStep) as)
  | .fix a =>
    if frames < plainStep then some .stackExhausted else obstacleWithin? (frames - plainStep) a

/-- The first obstacle in a list of expressions. -/
def obstacleInAll? (frames : Nat) : List Expr → Option Halt
  | [] => none
  | a :: as => (obstacleWithin? frames a).or (obstacleInAll? frames as)

/-- The first obstacle in a list of bindings. -/
def obstacleInBindings? (frames : Nat) : List (Text × Expr) → Option Halt
  | [] => none
  | (_, a) :: as => (obstacleWithin? frames a).or (obstacleInBindings? frames as)

end

/-- What stops an expression from being written with so many levels left, if anything does. -/
def obstacle? (levels : Nat) (e : Expr) : Option Halt := e.obstacleWithin? (framesOf levels)

/-- The surface text of an expression, or what stops the host from writing it. -/
def render (levels : Nat) (e : Expr) : Except Halt Text :=
  match e.obstacle? levels with
  | some halt => .error halt
  | none => .ok e.text

end CallByValue.Expr
