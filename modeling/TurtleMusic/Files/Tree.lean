import TurtleMusic.Fault

/-!
# File trees

Files and folders as a value. Places are told by the way to them from the folder of the tree or from the root of the file system. A path is followed part by part, and every part but the last has to be a folder that exists, also where the next part leads back up.
-/

namespace TurtleMusic.Files

/-- Where the way to a place starts: a number of levels above the folder of the tree, or at the root of the file system. -/
inductive Origin where
  | above (levels : Nat)
  | root
  deriving DecidableEq, Repr

structure Place where
  origin : Origin
  /-- The names of the folders on the way, and of the place itself at the end. -/
  parts : List String
  deriving DecidableEq, Repr

namespace Place

def here : Place := ⟨.above 0, []⟩

def root : Place := ⟨.root, []⟩

/-- The folder around a place. Nothing is above the root of the file system. -/
def up (place : Place) : Place :=
  match place.origin, place.parts with
  | .above levels, [] => ⟨.above (levels + 1), []⟩
  | .root, [] => root
  | origin, parts => ⟨origin, parts.dropLast⟩

def entry (place : Place) (name : String) : Place := ⟨place.origin, place.parts ++ [name]⟩

/-- Follows one part of a path. An empty part and a point stay where they are, and two points lead up. -/
def step (place : Place) (part : String) : Place :=
  if part = "" ∨ part = "." then place else if part = ".." then place.up else place.entry part

def start (path : String) : Place := if path.startsWith "/" then root else here

end Place

def partsOf (path : String) : List String := (path.toList.splitOn '/').map String.ofList

/-- The place that a path leads to if every folder on the way exists. -/
def Place.ofPath (path : String) : Place := (partsOf path).foldl Place.step (Place.start path)

def Place.path (place : Place) : String :=
  match place.origin with
  | .above levels => "/".intercalate (List.replicate levels ".." ++ place.parts)
  | .root => "/" ++ "/".intercalate place.parts

def join (folder entry : String) : String :=
  if folder.isEmpty || folder.endsWith "/" then folder ++ entry else folder ++ "/" ++ entry

/-- The longest name of an entry, in bytes. -/
def longestName : Nat := 255

/-- The longest path, in bytes. -/
def longestPath : Nat := 4095

/-- Whether a number fits where the number of an open file is expected. -/
def isFileNumber (number : Int) : Bool := -0x80000000 ≤ number && number < 0x80000000

structure Tree where
  files : List (Place × List UInt8) := []
  /-- Folders that exist even if nothing is in them. -/
  folders : List Place := []
  /-- The files that were written since the tree was taken. -/
  written : List Place := []

namespace Tree

/-! ### Places -/

/-- The part that follows a folder in the way to a place below it. -/
def partBelow? : (folder place : List String) → Option String
  | [], part :: _ => some part
  | part :: folder, other :: place => if part = other then partBelow? folder place else none
  | _, [] => none

/-- The name in a folder that leads to a place below it. -/
def below? (folder place : Place) : Option String :=
  if folder.origin = place.origin then partBelow? folder.parts place.parts else none

def places (tree : Tree) : List Place := tree.files.map (·.1) ++ tree.folders

/-- Whether a folder stands at a place. The places that ways start from are folders. -/
def isFolder (tree : Tree) (place : Place) : Bool :=
  place.parts.isEmpty || tree.folders.contains place || tree.places.any fun other => (below? place other).isSome

def names (tree : Tree) (folder : Place) : List String :=
  ((tree.places.filterMap (below? folder)).eraseDups).mergeSort fun left right => left ≤ right

def file? (tree : Tree) (place : Place) : Option (List UInt8) := tree.files.lookup place

def isPresent (tree : Tree) (place : Place) : Bool := (tree.file? place).isSome || tree.isFolder place

/-! ### Paths -/

/-- Follows the parts of a path from a place on. The path itself serves for the message. -/
def follow (tree : Tree) (path : String) (place : Place) : List String → Except Fault Place
  | [] => .ok place
  | part :: rest =>
    if !tree.isFolder place then .error (if (tree.file? place).isSome then .notFolder else .fileMissing path)
    else if longestName < part.utf8ByteSize then .error .nameTooLong
    else follow tree path (place.step part) rest

/-- Follows some parts from where a path starts. No path holds a null character, and the empty one leads nowhere. -/
def followFrom (tree : Tree) (path : String) (parts : List String) : Except Fault Place :=
  if path.contains '\x00' then .error .nullInPath
  else if path.isEmpty then .error (.fileMissing path)
  else if longestPath < path.utf8ByteSize then .error .nameTooLong
  else tree.follow path (Place.start path) parts

/-- The place that a path leads to, at which there need be nothing yet. -/
def locate (tree : Tree) (path : String) : Except Fault Place := tree.followFrom path (partsOf path)

def isPresentAt (tree : Tree) (path : String) : Bool := (tree.locate path).toOption.any tree.isPresent

def folder? (tree : Tree) (path : String) : Option Place := (tree.locate path).toOption.filter tree.isFolder

def read (tree : Tree) (path : String) : Except Fault (Place × List UInt8) := do
  let place ← tree.locate path
  match tree.file? place with
  | some content => return (place, content)
  | none => .error (if tree.isFolder place then .isFolder else .fileMissing path)

/-- The tree with a file put at a place, instead of an older one. -/
def put (tree : Tree) (place : Place) (content : List UInt8) : Tree :=
  { tree with files := (place, content) :: tree.files.filter (·.1 != place), written := place :: tree.written }

/-- The parts of a path that ends in a slash up to its last name, which names a folder whatever stands there. -/
def partsAround (path : String) : List String :=
  ((partsOf path).reverse.dropWhile (·.isEmpty)).tail.reverse ++ [""]

/-- Writes a file, for which the folder around it has to exist. -/
def write (tree : Tree) (path : String) (content : List UInt8) : Except Fault Tree := do
  if path.endsWith "/" then
    let _ ← tree.followFrom path (partsAround path)
    .error .isFolder
  else
    let place ← tree.locate path
    if tree.isFolder place then .error .isFolder else return tree.put place content

end Tree

end TurtleMusic.Files
