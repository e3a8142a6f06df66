import CallByValue.JsonTokens
import CallByValue.Table

/-!
# Reading JSON

A machine with a stack takes the tokens of a text one by one. The stack holds
the arrays and objects that are still open; what may come next decides which
complaint a wrong token earns.
-/

namespace CallByValue

/-- Why a text cannot be read as JSON. -/
inductive ReadError where
  | fault (fault : JsonFault) (position : Nat)
  | numeralTooLong (digits : Nat)
  | tooDeep
deriving DecidableEq

namespace JsonReader

/-- An array or object that is not closed yet. -/
inductive Open where
  | array (latestFirst : List Json)
  | member (before : Table Json) (name : Text)

/-- What has to come next. Where `closes` holds, the bracket just opened may close instead. -/
inductive Awaiting where
  | value (closes : Bool)
  | name (members : Table Json) (closes : Bool)
  | colon (members : Table Json) (name : Text)
  | separator (latest : Json)

/-- What is open, and what has to come next. -/
structure State where
  stack : List Open
  awaiting : Awaiting

/-- The state in which nothing has been read. -/
def start : State := ⟨[], .value false⟩

/-- The complaint about something else at a position than what has to come. -/
def State.missing (state : State) (position : Nat) : ReadError :=
  match state.awaiting with
  | .value _ => .fault .valueExpected position
  | .name _ _ => .fault .nameExpected position
  | .colon _ _ => .fault .colonExpected position
  | .separator _ => .fault (if state.stack.isEmpty then .extraData else .commaExpected) position

/-- A bracket opens: the state after it, if so many levels may be open. -/
def State.deeper (state : State) (limit : Nat) (opened : State) : Except ReadError State :=
  if limit ≤ state.stack.length then .error .tooDeep else .ok opened

/-- The state after a token at a position. At most `limit` arrays and objects may be open at a time. -/
def State.next (state : State) (limit position : Nat) (token : JsonToken) : Except ReadError State :=
  match state.awaiting, token, state.stack with
  | .value _, .string t, stack => .ok ⟨stack, .separator (.string t)⟩
  | .value _, .scalar datum, stack => .ok ⟨stack, .separator datum⟩
  | .value _, .leftBracket, stack => state.deeper limit ⟨.array [] :: stack, .value true⟩
  | .value _, .leftBrace, stack => state.deeper limit ⟨stack, .name .empty true⟩
  | .value true, .rightBracket, .array items :: stack => .ok ⟨stack, .separator (.array items.reverse)⟩
  | .name members _, .string t, stack => .ok ⟨stack, .colon members t⟩
  | .name members true, .rightBrace, stack => .ok ⟨stack, .separator (.object members.entries)⟩
  | .colon members name, .colon, stack => .ok ⟨.member members name :: stack, .value false⟩
  | .separator latest, .comma, .array items :: stack => .ok ⟨.array (latest :: items) :: stack, .value false⟩
  | .separator latest, .rightBracket, .array items :: stack =>
    .ok ⟨stack, .separator (.array (latest :: items).reverse)⟩
  | .separator latest, .comma, .member before name :: stack =>
    .ok ⟨stack, .name (before.insert name latest) false⟩
  | .separator latest, .rightBrace, .member before name :: stack =>
    .ok ⟨stack, .separator (.object (before.insert name latest).entries)⟩
  | _, _, _ => .error (state.missing position)

/-- The datum that is complete where the tokens end, or the complaint about what stands there. -/
def State.conclude (state : State) (ending : JsonEnd) (position : Nat) : Except ReadError Json :=
  match state.awaiting, ending, state.stack with
  | .separator datum, .finish, [] => .ok datum
  | .value _, .brokenString fault place, _ => .error (.fault fault place)
  | .name _ _, .brokenString fault place, _ => .error (.fault fault place)
  | .value _, .longNumeral digits, _ => .error (.numeralTooLong digits)
  | _, _, _ => .error (state.missing position)

/-- Takes the tokens one by one, up to the first that is refused. -/
def State.run (limit : Nat) (state : State) : List JsonToken.Located → Except ReadError State
  | [] => .ok state
  | located :: rest =>
    match state.next limit located.position located.token with
    | .ok state => State.run limit state rest
    | .error e => .error e

end JsonReader

/-- The datum that a text is, nested at most `limit` deep. -/
def Json.read (limit : Nat) (t : Text) : Except ReadError Json :=
  if t.head? = some (CodePoint.ofNat 0xFEFF) then .error (.fault .byteOrderMark 0)
  else
    let scanned := JsonToken.ofText t
    match JsonReader.start.run limit scanned.tokens with
    | .ok state => state.conclude scanned.ending scanned.position
    | .error e => .error e

/-- The line of a position, counted from one. -/
def lineAt (t : Text) (position : Nat) : Nat :=
  (t.take position).countP (fun c => c = CodePoint.ofChar '\n') + 1

/-- The column of a position in its line, counted from one. -/
def columnAt (t : Text) (position : Nat) : Nat :=
  ((t.take position).reverse.takeWhile (fun c => c ≠ CodePoint.ofChar '\n')).length + 1

/-- A fault in a text with the place where it lies. -/
def JsonFault.at (fault : JsonFault) (t : Text) (position : Nat) : Text :=
  fault.text ++ lit ": line " ++ Text.ofNat (lineAt t position) ++ lit " column " ++
    Text.ofNat (columnAt t position) ++ lit " (char " ++ Text.ofNat position ++ lit ")"

end CallByValue
