import CallByValue.Text

/-!
# Paths

A path has a root and parts. Empty parts and single dots vanish; double dots
stay, since what they lead to depends on the folders on the way.
-/

namespace CallByValue

/-- A path. A root of exactly two slashes is kept apart from that of one. -/
structure Path where
  root : Text
  parts : List Text
deriving DecidableEq

namespace Path

/-- The root of a text with so many leading slashes. -/
def rootOf (slashes : Nat) : Text :=
  match slashes with
  | 0 => []
  | 2 => lit "//"
  | _ => lit "/"

/-- The path that a text spells. -/
def ofText (t : Text) : Path :=
  let slashes := (t.takeWhile fun c => c = CodePoint.ofChar '/').length
  ⟨rootOf slashes, (Text.partsAt '/' t).filter fun part => part ≠ [] ∧ part ≠ lit "."⟩

/-- A path in text; the path without root and parts is a dot. -/
def text (path : Path) : Text :=
  if path.root.isEmpty && path.parts.isEmpty then lit "."
  else path.root ++ List.intercalate (lit "/") path.parts

/-- The second path as seen from the first: a path with a root stands for itself. -/
def join (path other : Path) : Path :=
  if other.root.isEmpty then ⟨path.root, path.parts ++ other.parts⟩ else other

end Path

end CallByValue
