import CallByValue.Quoted
import CallByValue.Limits

/-!
# Command-line arguments

Options may stand anywhere before a lone `--`. Short ones can share a dash, and
a long one may be cut short as long as it stays unambiguous. A wrong argument
ends the reading with a complaint, and so does a call for help.
-/

namespace CallByValue

/-- The options. -/
inductive Flag where
  | help
  | verbose
  | quiet
  | recursionLimit
deriving DecidableEq

namespace Flag

/-- Every spelling of an option, in order. -/
def spellings : List (Text × Flag) :=
  [(lit "-h", help), (lit "--help", help), (lit "-v", verbose), (lit "--verbose", verbose),
    (lit "-q", quiet), (lit "--quiet", quiet), (lit "--recursion-limit", recursionLimit)]

/-- The option with a spelling. -/
def ofSpelling? (t : Text) : Option Flag := (spellings.find? (·.1 = t)).map (·.2)

/-- All spellings of an option, as complaints name it. -/
def label (flag : Flag) : Text :=
  List.intercalate (lit "/") ((spellings.filter (·.2 = flag)).map (·.1))

end Flag

/-- A complaint about the arguments. -/
inductive UsageError where
  | ambiguous (argument : Text) (matching : List Text)
  | needlessValue (flag : Flag) (value : Text)
  | missingValue (flag : Flag)
  | notAnInteger (flag : Flag) (value : Text)
  | missingProgram
  | unrecognized (arguments : List Text)

/-- The words for a complaint. -/
def UsageError.text : UsageError → Text
  | ambiguous argument matching =>
    lit "ambiguous option: " ++ argument ++ lit " could match " ++ Text.listed matching
  | needlessValue flag value =>
    lit "argument " ++ flag.label ++ lit ": ignored explicit argument " ++ Quoted.quote value
  | missingValue flag => lit "argument " ++ flag.label ++ lit ": expected one argument"
  | notAnInteger flag value =>
    lit "argument " ++ flag.label ++ lit ": invalid int value: " ++ Quoted.quote value
  | missingProgram => lit "the following arguments are required: program"
  | unrecognized arguments => lit "unrecognized arguments: " ++ Text.spaced arguments

/-- Why reading the arguments ends without options. -/
inductive Stop where
  | help
  | usage (e : UsageError)

/-- What the arguments ask for. -/
structure Options where
  verbose : Nat
  quiet : Bool
  recursionLimit : Option Int
  program : Option Text

/-- An argument by its role. An option has the value attached to it, if there is one; where it is
    unknown it has no flag. -/
inductive Argument where
  | positional (t : Text)
  | separator
  | option (flag : Flag) (spelling : Text) (value : Option Text)
  | unknown (t : Text)

namespace Argument

/-- The dash that options begin with. -/
def dash : CodePoint := CodePoint.ofChar '-'

/-- The text before the first equals sign and the text behind it. -/
def splitValue (t : Text) : Text × Option Text :=
  let isEqualsSign (c : CodePoint) : Bool := c = CodePoint.ofChar '='
  match t.dropWhile (!isEqualsSign ·) with
  | [] => (t, none)
  | _ :: value => (t.takeWhile (!isEqualsSign ·), some value)

/-- The options that an argument may mean, with their spellings and values: for two dashes all those
    it is the beginning of, for one dash the short one it begins with. -/
def candidates (t : Text) : List (Flag × Text × Option Text) :=
  if (lit "--").isPrefixOf t then
    let (beginning, value) := splitValue t
    (Flag.spellings.filter fun pair => beginning.isPrefixOf pair.1).map fun pair => (pair.2, pair.1, value)
  else
    (Flag.spellings.filter fun pair => pair.1 = t.take 2).map fun pair => (pair.2, pair.1, some (t.drop 2))

/-- Is a text a negative number, with or without a point? One line feed may follow. -/
def isNegativeNumber (t : Text) : Bool :=
  let isDigit (c : CodePoint) : Bool := c.decimalDigit?.isSome
  match t with
  | [] => false
  | first :: rest =>
    let number := if rest.getLast? = some (CodePoint.ofChar '\n') then rest.dropLast else rest
    let point := CodePoint.ofChar '.'
    let fraction := (number.dropWhile isDigit).drop 1
    first = dash &&
      ((!number.isEmpty && number.all isDigit) ||
        ((number.dropWhile isDigit).head? = some point && !fraction.isEmpty && fraction.all isDigit))

/-- The role of an argument that stands before every separator. -/
def ofText (t : Text) : Except UsageError Argument :=
  if t.head? ≠ some dash then .ok (.positional t)
  else
    match Flag.ofSpelling? t with
    | some flag => .ok (.option flag t none)
    | none =>
      if t.length = 1 then .ok (.positional t)
      else
        match splitValue t with
        | (spelling, some value) =>
          match Flag.ofSpelling? spelling with
          | some flag => .ok (.option flag spelling (some value))
          | none => guess
        | _ => guess
where
  /-- The role of an argument with a dash that spells no option in full. -/
  guess : Except UsageError Argument :=
    match candidates t with
    | [(flag, spelling, value)] => .ok (.option flag spelling value)
    | [] =>
      if isNegativeNumber t || t.contains (CodePoint.ofChar ' ') then .ok (.positional t)
      else .ok (.unknown t)
    | several => .error (.ambiguous t (several.map (·.2.1)))

/-- The roles of all arguments. Behind the first separator none is an option. -/
def classify : List Text → Except UsageError (List Argument)
  | [] => .ok []
  | t :: rest =>
    if t = lit "--" then .ok (.separator :: rest.map .positional)
    else do
      let argument ← ofText t
      let arguments ← classify rest
      return argument :: arguments

/-- The options that share a dash with a first one, whose text goes on with `value`. -/
def cluster (flag : Flag) : Text → Except UsageError (List Flag)
  | [] => .error (.needlessValue flag [])
  | c :: rest =>
    match Flag.ofSpelling? [dash, c] with
    | none => .error (.needlessValue flag (c :: rest))
    | some next =>
      if rest.isEmpty then .ok [flag, next]
      else do
        let flags ← cluster next rest
        return flag :: flags

/-- The digits of an integer, single underscores being allowed between them. -/
def integerDigits? : Text → Option (List Nat)
  | [] => none
  | [c] => c.decimalDigit?.map ([·])
  | c :: d :: rest => do
    let digit ← c.decimalDigit?
    let digits ← if d = CodePoint.ofChar '_' then integerDigits? rest else integerDigits? (d :: rest)
    return digit :: digits

/-- Is this a blank beside an integer? Of the ASCII controls only those from tab to carriage return are. -/
def isMargin (c : CodePoint) : Bool :=
  if c.IsAscii then c.val = 32 || (9 ≤ c.val && c.val ≤ 13) else c.isBlank

/-- The integer that a text spells, with blanks around it and a sign before it. -/
def integer? (t : Text) : Option Int := do
  let inner := ((t.dropWhile isMargin).reverse.dropWhile isMargin).reverse
  let negative := inner.head? = some dash
  let signed := negative || inner.head? = some (CodePoint.ofChar '+')
  let digits ← integerDigits? (if signed then inner.drop 1 else inner)
  if digitLimit < digits.length then none
  else
    let size : Nat := digits.foldl (fun sofar digit => 10 * sofar + digit) 0
    return if negative then -(size : Int) else size

end Argument

namespace Options

/-- The options when nothing is asked for. -/
def start : Options := ⟨0, false, none, none⟩

/-- Does what an option without a value asks for. -/
def take (options : Options) : Flag → Except Stop Options
  | .help => .error .help
  | .verbose => .ok { options with verbose := options.verbose + 1 }
  | .quiet => .ok { options with quiet := true }
  | .recursionLimit => .error (.usage (.missingValue .recursionLimit))

/-- Does what several options without values ask for. -/
def takeAll (options : Options) : List Flag → Except Stop Options
  | [] => .ok options
  | flag :: flags => do
    let options ← options.take flag
    options.takeAll flags

/-- Sets the recursion limit. A value that is itself a separator takes back what was set before. -/
def setLimit (options : Options) (value : Text) : Except Stop Options :=
  if value = lit "--" then .ok { options with recursionLimit := none }
  else
    match Argument.integer? value with
    | some n => .ok { options with recursionLimit := some n }
    | none => .error (.usage (.notAnInteger .recursionLimit value))

/-- Takes the arguments one by one. The first positional one is the program, and a separator beside
    it belongs to it; what is left over is collected, latest first. -/
def collect (options : Options) (extras : List Text) : List Argument → Except Stop (Options × List Text)
  | [] => .ok (options, extras)
  | .positional t :: rest =>
    match options.program, rest with
    | some _, rest => options.collect (t :: extras) rest
    | none, .separator :: rest => Options.collect { options with program := some t } extras rest
    | none, rest => Options.collect { options with program := some t } extras rest
  | .separator :: rest =>
    match options.program, rest with
    | none, .positional t :: rest => Options.collect { options with program := some t } extras rest
    | _, rest => options.collect (lit "--" :: extras) rest
  | .unknown t :: rest => options.collect (t :: extras) rest
  | .option .recursionLimit _ (some value) :: rest => do
    let options ← options.setLimit value
    options.collect extras rest
  | .option .recursionLimit _ none :: .positional value :: rest => do
    let options ← options.setLimit value
    options.collect extras rest
  | .option flag spelling (some value) :: rest =>
    if (lit "--").isPrefixOf spelling then .error (.usage (.needlessValue flag value))
    else do
      let flags ← (Argument.cluster flag value).mapError Stop.usage
      let options ← options.takeAll flags
      options.collect extras rest
  | .option flag _ none :: rest => do
    let options ← options.take flag
    options.collect extras rest

/-- What a command line's arguments ask for. -/
def ofArguments (arguments : List Text) : Except Stop Options := do
  let classified ← (Argument.classify arguments).mapError Stop.usage
  let (options, extras) ← start.collect [] classified
  if options.program.isNone then .error (.usage .missingProgram)
  else if extras.isEmpty then .ok options
  else .error (.usage (.unrecognized extras.reverse))

end Options

end CallByValue
