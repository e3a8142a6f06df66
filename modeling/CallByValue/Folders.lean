import CallByValue.Mishaps
import CallByValue.Paths
import CallByValue.Utf8

/-!
# Folders

The files a command line can see. A path is followed part by part; what it
meets on the way decides which error of the system it earns. Names are
compared by their bytes.
-/

namespace CallByValue

/-- What opening a file gives. -/
inductive Opened where
  | content (bytes : List UInt8)
  | missing
  | refused (number : Nat) (description : Text)
  | zeroInName
  | notAName (fault : Utf8.NameFault)

/-- The names on the way from the root to a file or a folder. -/
abbrev Place := List (List UInt8)

/-- Files with their bytes, the latest written first, and folders. -/
structure Folders where
  files : List (Place × List UInt8)
  folders : List Place

namespace Folders

/-- How many bytes a part of a path may have. -/
def longestPart : Nat := 255

/-- How many bytes a whole path may have. -/
def longestPath : Nat := 4095

/-- The answer to a path, or a part of one, that has too many bytes. -/
def tooLong : Opened := .refused 36 (lit "File name too long")

/-- The root alone. -/
def empty : Folders := ⟨[], []⟩

/-- Where a part of a path leads from a folder. -/
def enter (place : Place) (part : Text) : Place :=
  if part = lit ".." then place.dropLast else place ++ [Utf8.encodeName part]

/-- Where a path leads, if there is a folder for each part but the last. -/
def placeOf (path : Path) : Place := path.parts.foldl enter []

/-- Where the parts of a path lead from a folder, one after the other. -/
def placesOn (place : Place) : List Text → List Place
  | [] => []
  | part :: rest => enter place part :: placesOn (enter place part) rest

/-- Makes a folder for every part of a path. -/
def makeFolder (tree : Folders) (path : Path) : Folders :=
  { tree with folders := placesOn [] path.parts ++ tree.folders }

/-- Writes a file over what stood in its place. -/
def write (tree : Folders) (path : Path) (bytes : List UInt8) : Folders :=
  { tree with files := (placeOf path, bytes) :: tree.files }

/-- Is there a folder? The root is one, and so is whatever holds a file or a folder. -/
def isFolder (tree : Folders) (place : Place) : Bool :=
  place.isEmpty || tree.folders.any (place.isPrefixOf ·) ||
    tree.files.any fun file => place.isPrefixOf file.1.dropLast

/-- The content of a file. -/
def file? (tree : Folders) (place : Place) : Option (List UInt8) :=
  (tree.files.find? (·.1 = place)).map (·.2)

/-- Follows the parts of a path from a folder. -/
def follow (tree : Folders) (place : Place) : List Text → Opened
  | [] => .refused 21 (lit "Is a directory")
  | part :: rest =>
    let next := enter place part
    if longestPart < (Utf8.encodeName part).length then tooLong
    else if tree.isFolder next then tree.follow next rest
    else
      match tree.file? next, rest with
      | none, _ => .missing
      | some bytes, [] => .content bytes
      | some _, _ => .refused 20 (lit "Not a directory")

/-- What opening a path gives. A path that has no bytes, or a zero among them, cannot even be looked for. -/
def opened (tree : Folders) (path : Path) : Opened :=
  match Utf8.nameFault? path.text with
  | some fault => .notAName fault
  | none =>
    let bytes := Utf8.encodeName path.text
    if bytes.contains 0 then .zeroInName
    else if longestPath < bytes.length then tooLong
    else tree.follow [] path.parts

end Folders

end CallByValue
