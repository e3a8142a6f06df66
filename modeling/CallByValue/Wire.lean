import CallByValue.Json
import CallByValue.Expr

/-!
# Expressions as JSON

Each form travels as a tagged array with a fixed number of fields. Decoding
refuses whatever does not fit, at the first place where it does not, in the
order in which the fields are written.
-/

namespace CallByValue

/-- The tags of the forms. -/
inductive Tag where
  | literal
  | var
  | binary
  | unary
  | conditional
  | lambda
  | apply
  | letIn
  | letRec
  | sequence
  | fix
deriving DecidableEq

namespace Tag

/-- Every tag. -/
def all : List Tag :=
  [literal, var, binary, unary, conditional, lambda, apply, letIn, letRec, sequence, fix]

/-- The word a tag is written with. -/
def word : Tag → Text
  | literal => lit "lit"
  | var => lit "var"
  | binary => lit "binop"
  | unary => lit "unop"
  | conditional => lit "if"
  | lambda => lit "lambda"
  | apply => lit "apply"
  | letIn => lit "let"
  | letRec => lit "letrec"
  | sequence => lit "begin"
  | fix => lit "fix"

/-- How many fields follow a tag. -/
def fieldCount : Tag → Nat
  | literal => 1
  | var => 1
  | binary => 3
  | unary => 2
  | conditional => 3
  | lambda => 2
  | apply => 2
  | letIn => 2
  | letRec => 2
  | sequence => 1
  | fix => 1

/-- The tag that a datum is the word of. -/
def ofJson? : Json → Option Tag
  | .atom (.text t) => all.find? fun tag => tag.word = t
  | _ => none

end Tag

/-- What a datum ought to have been. -/
inductive Expectation where
  | taggedArray
  | knownTag
  | fieldCount (tag : Tag) (given : Nat)
  | name
  | glyph
  | bindings
  | binding
  | literal
  | expressions
  | someExpression
  | params
  | args
deriving DecidableEq

/-- The words for an expectation that is not met. -/
def Expectation.text : Expectation → Text
  | taggedArray => lit "Expected a tagged array"
  | knownTag => lit "Unknown tag"
  | fieldCount tag given =>
    lit "Tag '" ++ tag.word ++ lit "' takes " ++ Text.ofNat tag.fieldCount ++ lit " field(s), not " ++
      Text.ofNat given
  | name => lit "Expected a name"
  | glyph => lit "Expected an operator glyph"
  | bindings => lit "Expected a list of bindings"
  | binding => lit "Expected [name, expression]"
  | literal => lit "Literals are booleans, numbers, or strings"
  | expressions => lit "Expected a list of expressions"
  | someExpression => lit "A begin-block needs at least one expression"
  | params => lit "Expected a parameter list"
  | args => lit "Expected an argument list"

/-- A datum that is not what it ought to be. -/
structure Misfit where
  expected : Expectation
  datum : Json

/-- How much of a misfit's text is quoted. -/
def Misfit.quoteLength : Nat := 60

/-- The words for a misfit, with the beginning of its text. -/
def Misfit.text (m : Misfit) : Text :=
  m.expected.text ++ lit ": " ++ m.datum.text.take quoteLength

namespace Wire

/-- A name is a text that is not empty. -/
def decodeName : Json → Except Misfit Text
  | .atom (.text (c :: rest)) => .ok (c :: rest)
  | datum => .error ⟨.name, datum⟩

/-- A glyph is any text. -/
def decodeGlyph : Json → Except Misfit Text
  | .atom (.text t) => .ok t
  | datum => .error ⟨.glyph, datum⟩

/-- The value of a literal. -/
def decodeLiteral : Json → Except Misfit Atom
  | .atom a => .ok a
  | datum => .error ⟨.literal, datum⟩

/-- The names of a list. -/
def decodeNames : List Json → Except Misfit (List Text)
  | [] => .ok []
  | datum :: data => do
    let name ← decodeName datum
    let names ← decodeNames data
    return name :: names

/-- The names of a parameter list. -/
def decodeParams : Json → Except Misfit (List Text)
  | .array data => decodeNames data
  | datum => .error ⟨.params, datum⟩

mutual

/-- The expression that a datum stands for. -/
def decode : Json → Except Misfit Expr
  | .array (head :: fields) =>
    match Tag.ofJson? head, fields with
    | none, fields => .error ⟨.knownTag, .array (head :: fields)⟩
    | some .literal, [value] => do
      return .literal (← decodeLiteral value)
    | some .var, [name] => do
      return .var (← decodeName name)
    | some .binary, [glyph, left, right] => do
      let glyph ← decodeGlyph glyph
      let left ← decode left
      let right ← decode right
      return .binary glyph left right
    | some .unary, [glyph, operand] => do
      let glyph ← decodeGlyph glyph
      let operand ← decode operand
      return .unary glyph operand
    | some .conditional, [test, yes, no] => do
      let test ← decode test
      let yes ← decode yes
      let no ← decode no
      return .conditional test yes no
    | some .lambda, [params, body] => do
      let params ← decodeParams params
      let body ← decode body
      return .lambda params body
    | some .apply, [callee, args] => do
      let callee ← decode callee
      match args with
      | .array data => return .apply callee (← decodeAll data)
      | datum => .error ⟨.args, datum⟩
    | some .letIn, [bindings, body] => do
      match bindings with
      | .array data =>
        let bindings ← decodeBindings data
        let body ← decode body
        return .letIn bindings body
      | datum => .error ⟨.bindings, datum⟩
    | some .letRec, [bindings, body] => do
      match bindings with
      | .array data =>
        let bindings ← decodeBindings data
        let body ← decode body
        return .letRec bindings body
      | datum => .error ⟨.bindings, datum⟩
    | some .sequence, [exprs] => do
      match exprs with
      | .array [] => .error ⟨.someExpression, .array []⟩
      | .array (first :: rest) =>
        let first ← decode first
        let rest ← decodeAll rest
        return .sequence first rest
      | datum => .error ⟨.expressions, datum⟩
    | some .fix, [functional] => do
      return .fix (← decode functional)
    | some tag, fields => .error ⟨.fieldCount tag fields.length, .array (head :: fields)⟩
  | datum => .error ⟨.taggedArray, datum⟩

/-- The expressions of a list. -/
def decodeAll : List Json → Except Misfit (List Expr)
  | [] => .ok []
  | datum :: data => do
    let e ← decode datum
    let es ← decodeAll data
    return e :: es

/-- The bindings of a list, each a pair of a name and an expression. -/
def decodeBindings : List Json → Except Misfit (List (Text × Expr))
  | [] => .ok []
  | .array [name, value] :: data => do
    let name ← decodeName name
    let value ← decode value
    let bindings ← decodeBindings data
    return (name, value) :: bindings
  | datum :: _ => .error ⟨.binding, datum⟩

end

/-- A tag with its fields. -/
def tagged (tag : Tag) (fields : List Json) : Json := .array (.string tag.word :: fields)

mutual

/-- The datum that stands for an expression. -/
def encode : Expr → Json
  | .literal a => tagged .literal [.atom a]
  | .var x => tagged .var [.string x]
  | .binary g a b => tagged .binary [.string g, encode a, encode b]
  | .unary g a => tagged .unary [.string g, encode a]
  | .conditional a b c => tagged .conditional [encode a, encode b, encode c]
  | .lambda ps a => tagged .lambda [.array (ps.map .string), encode a]
  | .apply f as => tagged .apply [encode f, .array (encodeAll as)]
  | .letIn bs a => tagged .letIn [.array (encodeBindings bs), encode a]
  | .letRec bs a => tagged .letRec [.array (encodeBindings bs), encode a]
  | .sequence a as => tagged .sequence [.array (encode a :: encodeAll as)]
  | .fix a => tagged .fix [encode a]

/-- The data for a list of expressions. -/
def encodeAll : List Expr → List Json
  | [] => []
  | a :: as => encode a :: encodeAll as

/-- The data for a list of bindings. -/
def encodeBindings : List (Text × Expr) → List Json
  | [] => []
  | (x, a) :: as => .array [.string x, encode a] :: encodeBindings as

end

end Wire

end CallByValue
