import DiagramLint.CommandLine.Run
import DiagramLint.Config.Readers

/-!
The program: it takes a picture of the files in the working directory, of the configuration files
in the home directory and of what absolute arguments name, runs the command line over it, prints
what comes of it, and writes the files that changed.
-/

namespace DiagramLint.Main

/-- What some bytes contain. -/
def contentOf (bytes : ByteArray) : FileContent :=
  match String.fromUTF8? bytes with
  | some s => .text s.toList
  | none => .notText

/-- How deeply directories are looked into. -/
def maxDepth : Nat := 64

/-- The location of an absolute path. -/
def locationOf (path : String) : Location := (Path.pieces path).filter (· != "")

/-- The absolute path of a location. -/
def pathOf (place : Location) : String := "/" ++ "/".intercalate place

/-- A tree with the files below a location. Names that cannot be looked at are left out. -/
def addBelow (tree : FileTree) (place : Location) : (depth : Nat) → IO FileTree
  | 0 => return tree
  | depth + 1 => do
    let entries ← try (← IO.FS.realPath (pathOf place)).readDir catch _ => pure #[]
    entries.foldlM (fun tree entry => do
      let inner := place ++ [entry.fileName]
      try
        if ← entry.path.isDir then
          addBelow { tree with directories := inner :: tree.directories } inner depth
        else
          let content := contentOf (← IO.FS.readBinFile entry.path)
          return { tree with files := tree.files ++ [(inner, content)] }
      catch _ => return tree) tree

/-- The files that a run may look at. -/
def picture (args : List String) (home : Option String) : IO FileTree := do
  let here := locationOf (← IO.currentDir).toString
  let tree ← addBelow { workingDirectory := here } here maxDepth
  let tree ← home.toList.foldlM (fun tree path => addBelow tree (locationOf path) 1) tree
  (args.filter Path.isAbsolute).foldlM (fun tree path => do
    let tree ← addBelow tree (locationOf (Path.parent path)) 1
    addBelow tree (locationOf path) maxDepth) tree

/-- Write the files that differ between two trees. -/
def writeChanges (before after : FileTree) : IO Unit :=
  after.files.forM fun (place, content) =>
    match content with
    | .text t =>
      if before.content? place = some content then pure ()
      else IO.FS.writeFile (pathOf place) (String.ofList t)
    | .notText => pure ()

/-- Go on for ever. -/
def forever {α : Type} [Inhabited α] : IO α := do
  repeat IO.sleep 1000
  return default

/-- Run arguments over the files that are there. -/
def run (args : List String) : IO UInt32 := do
  let home ← IO.getEnv "HOME"
  let tree ← picture args home
  match CommandLine.runArguments args .builtin tree home with
  | .error .endless => forever
  | .error _ => return 101
  | .ok (.error e) =>
    (← IO.getStderr).putStr ("error: " ++ e.message ++ "\n")
    return 2
  | .ok (.ok result) =>
    (← IO.getStdout).putStr (String.ofList result.stdout)
    (← IO.getStderr).putStr (String.ofList result.stderr)
    writeChanges tree result.files
    return result.code.toUInt32

end DiagramLint.Main

/-- The program. -/
def main (args : List String) : IO UInt32 := DiagramLint.Main.run args
