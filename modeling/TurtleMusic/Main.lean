import TurtleMusic.Command.Run
import TurtleMusic.Setting.Json

/-!
# The program

Reads the files that a run can see, runs, prints and writes what the run left behind. The configuration is a JSON file; of the file system only the folder of the corpus and what lies on the way to it, to the configuration and to the outputs are looked at.
-/

namespace TurtleMusic.Program

open TurtleMusic.Command TurtleMusic.Files

/-- Runs a reading action; one that fails reads nothing. -/
def attempt {α : Type} (action : IO α) : IO (Option α) := do
  try return some (← action) catch _ => return none

def folderExists (path : String) : IO Bool := do
  return (← attempt (do (← IO.FS.realPath path).isDir)).getD false

/-- Adds what a folder holds to a tree, down to a number of levels. -/
def addFolder (tree : Tree) (path : String) (place : Place) : (levels : Nat) → IO Tree
  | 0 => return tree
  | levels + 1 => do
    let mut tree := { tree with folders := place :: tree.folders }
    for entry in ← (← IO.FS.realPath path).readDir do
      let path := join path entry.fileName
      let place := place.entry entry.fileName
      if ← folderExists path then
        tree := { tree with folders := place :: tree.folders }
        tree ← addFolder tree path place levels
      else if let some content ← attempt (IO.FS.readBinFile path) then
        tree := { tree with files := (place, content.toList) :: tree.files }
    return tree

/-- Adds the folders that a path leads through and the files that stand on its way; of a file it is only noted that it is there. -/
def addWay (tree : Tree) (path : String) : IO Tree := do
  let mut tree := tree
  let mut place := Place.start path
  for part in partsOf path do
    place := place.step part
    if place.parts.isEmpty then continue
    if ← folderExists place.path then
      tree := { tree with folders := place :: tree.folders }
    else if (← attempt (IO.FS.realPath place.path)).isSome then
      tree := { tree with files := tree.files ++ [(place, [])] }
  return tree

/-- The folder that a configuration takes its corpus from. -/
def corpusFolder? (config : Setting) : Option String :=
  match config with
  | .mapping entries =>
    match Setting.get entries "corpus" with
    | .text folder => some folder
    | .mapping corpus =>
      match Setting.get corpus "path" with
      | .text folder => some folder
      | _ => none
    | _ => none
  | _ => none

/-- The paths that a configuration writes to. -/
def outputPaths (config : Setting) : List String :=
  let entries (value : Setting) : List (String × Setting) :=
    match value with
    | .mapping entries => entries
    | _ => []
  let output := entries (Setting.get (entries config) "output")
  ["score", "midi"].filterMap fun name =>
    match Setting.get output name with
    | .text path => some path
    | _ => none

/-- What can be seen of the file system with a configuration file, and its value if it can be read. -/
def look (configPath : String) : IO (Tree × Option Setting) := do
  let mut tree ← addWay {} configPath
  if ← folderExists configPath then return (tree, none)
  let some content ← attempt (IO.FS.readBinFile configPath) | return (tree, none)
  let config := (Text.decode content.toList).toOption.bind Json.read?
  tree := { tree with files := (Place.ofPath configPath, content.toList) :: tree.files }
  if let some folder := config.bind corpusFolder? then
    tree ← addWay tree folder
    if ← folderExists folder then tree ← addFolder tree folder (Place.ofPath folder) 2
  for path in (config.map outputPaths).getD [] do tree ← addWay tree path
  return (tree, config)

def run (arguments : List String) : IO UInt32 := do
  let configPath := arguments.headD defaultConfigPath
  let (tree, config) ← look configPath
  if (tree.read configPath).isOk && config.isNone then
    IO.eprintln s!"{configPath} is not a JSON file"
    return 1
  let fallback := Chance.Generator.ofSeed (← IO.rand 0 0xffffffff)
  let finish := Command.run ⟨tree, fun _ _ => .ok (config.getD .null), fallback⟩ arguments
  for report in finish.reports do IO.eprintln report.line
  IO.print finish.printed
  for place in finish.tree.written.eraseDups do
    if let some content := finish.tree.file? place then
      IO.FS.writeBinFile place.path (ByteArray.mk content.toArray)
  if let some fault := finish.fault then IO.eprintln fault.message
  return UInt32.ofNat (finish.code.getD 1)

end TurtleMusic.Program

def main (arguments : List String) : IO UInt32 := TurtleMusic.Program.run arguments
