import CallByValue.Atoms

/-!
# JSON data

The members of an object keep their order. Numbers that are not finite have
words of their own.
-/

namespace CallByValue

/-- A datum in JSON. -/
inductive Json where
  | null
  | atom (a : Atom)
  | array (items : List Json)
  | object (members : List (Text × Json))

namespace Json

/-- The words for numbers that are not finite. -/
def words : SpecialWords := ⟨lit "Infinity", lit "NaN"⟩

/-- An atom in JSON. -/
def atomText : Atom → Text
  | .boolean b => lit (if b then "true" else "false")
  | .number n => n.text words
  | .text t => Escapes.quote t

mutual

/-- The text of a datum, on one line and in ASCII. -/
def text : Json → Text
  | .null => lit "null"
  | .atom a => atomText a
  | .array items => lit "[" ++ Text.listed (texts items) ++ lit "]"
  | .object members => lit "\x7b" ++ Text.listed (memberTexts members) ++ lit "\x7d"

/-- The texts of the items of an array. -/
def texts : List Json → List Text
  | [] => []
  | item :: items => text item :: texts items

/-- The texts of the members of an object. -/
def memberTexts : List (Text × Json) → List Text
  | [] => []
  | (name, value) :: members => (Escapes.quote name ++ lit ": " ++ text value) :: memberTexts members

end

mutual

/-- How many arrays and objects lie around the innermost one, that one included. -/
def nesting : Json → Nat
  | .null => 0
  | .atom _ => 0
  | .array items => nestingOfItems items + 1
  | .object members => nestingOfMembers members + 1

/-- The deepest nesting among items. -/
def nestingOfItems : List Json → Nat
  | [] => 0
  | item :: items => max (nesting item) (nestingOfItems items)

/-- The deepest nesting among members. -/
def nestingOfMembers : List (Text × Json) → Nat
  | [] => 0
  | (_, value) :: members => max (nesting value) (nestingOfMembers members)

end

/-- A text as a datum. -/
def string (t : Text) : Json := .atom (.text t)

/-- The member of an object with a name. -/
def member? (name : Text) : Json → Option Json
  | .object members => (members.find? (·.1 = name)).map (·.2)
  | _ => none

end Json

end CallByValue
