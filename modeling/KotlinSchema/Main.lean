import KotlinSchema.Command.Program

/-! The program on the files below its current directory and below the directories it is given.
These are read first and written last, so that all that is between is a function of theirs. -/

namespace KotlinSchema

/-- The files and directories among the entries of a directory and below them. -/
partial def nodesBelow (location : List String) (entries : Array IO.FS.DirEntry) :
    IO (List (List String × Node)) := do
  let mut nodes := []
  for entry in entries do
    let inner := location ++ [entry.fileName]
    if ← entry.path.isDir then
      nodes := nodes ++ (inner, .directory) :: (← nodesBelow inner (← entry.path.readDir))
    else
      nodes := nodes ++ [(inner, .file (← IO.FS.readBinFile entry.path).toList)]
  return nodes

/-- A directory with those on the way to it and all that is below it. -/
def nodesAround (location : List String) : IO (List (List String × Node)) := do
  let onTheWay := (List.range location.length).map fun n => (location.take (n + 1), Node.directory)
  let path := (← IO.currentDir) / ("/" ++ "/".intercalate location)
  return onTheWay ++ (← nodesBelow location (← path.readDir))

def load (arguments : List String) : IO Workspace := do
  let current := (Path.ofString (← IO.currentDir).toString).parts
  let mut nodes ← nodesAround current
  for argument in arguments do
    if ← ((← IO.currentDir) / argument).isDir then
      let steps := (⟨current, .empty⟩ : Workspace).steps (Anchor.ofText argument)
        (Path.steps argument)
      nodes := nodes ++ (← nodesAround (steps.foldl Workspace.advance []))
  return ⟨current, .ofList nodes⟩

def save (before after : Workspace) : IO Unit := do
  for (location, node) in after.nodes.entries do
    if before.nodes.get? location ≠ some node then
      let path := "/" ++ "/".intercalate location
      match node with
      | .directory => IO.FS.createDirAll path
      | .file content => IO.FS.writeBinFile path ⟨content.toArray⟩

end KotlinSchema

def main (arguments : List String) : IO UInt32 := do
  let before ← KotlinSchema.load arguments
  let (after, output) := KotlinSchema.Command.run before arguments
  KotlinSchema.save before after
  (← IO.getStderr).putStr output.stderr
  (← IO.getStdout).putStr output.stdout
  return UInt32.ofNat output.exitCode
