import KotlinSchema.FileSystem
import KotlinSchema.Workspace.Basic

/-! Reading, writing and listing the files of a workspace. -/

namespace KotlinSchema.Workspace

def readBytes (w : Workspace) (p : Path) : Except FileFault (List UInt8) :=
  match w.locate p with
  | .error kind => .error ⟨kind, p⟩
  | .ok location =>
    match w.node? location with
    | none => .error ⟨.notFound, p⟩
    | some .directory => .error ⟨.isDirectory, p⟩
    | some (.file content) => .ok content

def readIfFile (w : Workspace) (p : Path) : Except FileFault (Option (List UInt8)) :=
  (w.find? p).map fun
    | some (_, .file content) => some content
    | _ => none

def writeBytes (w : Workspace) (p : Path) (content : List UInt8) : Except FileFault Workspace :=
  match w.locate p with
  | .error kind => .error ⟨kind, p⟩
  | .ok location =>
    match w.node? location with
    | some .directory => .error ⟨.isDirectory, p⟩
    | _ => .ok { w with nodes := w.nodes.insert location (.file content) }

def makeDirectory (w : Workspace) (p : Path) : Except FileFault Workspace :=
  match w.locate p with
  | .error kind => .error ⟨kind, p⟩
  | .ok location =>
    match w.node? location with
    | some _ => .error ⟨.alreadyExists, p⟩
    | none => .ok { w with nodes := w.nodes.insert location .directory }

/-- Makes a directory with all that are missing on the way to it; one that is there is no fault.
After a fault the directories made before it stay. -/
def makeDirectories (w : Workspace) (p : Path) : Workspace × Option FileFault :=
  match w.makeDirectory p with
  | .ok w => (w, none)
  | .error fault =>
    if _h : fault.kind = .notFound ∧ p.parts ≠ [] then
      match w.makeDirectories p.parent with
      | (w, some fault) => (w, some fault)
      | (w, none) =>
        match w.makeDirectory p with
        | .ok w => (w, none)
        | .error fault => (w, if w.isDirectory p then none else some fault)
    else (w, if w.isDirectory p then none else some fault)
termination_by p.parts.length
decreasing_by
  have := List.length_pos_iff.2 _h.2
  simp only [Path.parent, List.length_dropLast]
  omega

def delete (w : Workspace) (p : Path) : Except FileFault Workspace :=
  match w.locate p with
  | .error kind => .error ⟨kind, p⟩
  | .ok location =>
    match w.node? location with
    | none => .error ⟨.notFound, p⟩
    | some .directory => .error ⟨.isDirectory, p⟩
    | some (.file _) => .ok { w with nodes := w.nodes.erase location }

/-- The directories below a location, or the files there, as the names on the way to them. -/
def below (w : Workspace) (location : List String) (directories : Bool) : List (List String) :=
  let found := w.nodes.entries.filterMap fun (place, node) =>
    let names := place.drop location.length
    if location.isPrefixOf place && !names.isEmpty && (node == .directory) == directories then
      some names
    else none
  found.mergeSort fun names names' => !Path.precedes names' names

/-- The files below a directory. All that is there is asked for by its path from the directory,
directories first and then files. -/
def filesBelow (w : Workspace) (directory : Path) : Except FileFault (List Path) := do
  match ← w.find? directory with
  | some (location, .directory) =>
    let listed := fun directories => (w.below location directories).map directory.join
    match (listed true ++ listed false).find? isTooLong with
    | some p => .error ⟨.nameTooLong, p⟩
    | none => return listed false
  | _ => return []

instance : FileSystem Workspace FileFault where
  isDirectory w p := (w.find? p).map fun found => found.any fun (_, node) => node == .directory
  filesBelow := filesBelow
  readBytes := readBytes
  makeDirectories := makeDirectories
  write w p content :=
    match w.writeBytes p content with
    | .ok after => .done after
    | .error fault => .refused fault

def readText (w : Workspace) (p : Path) : Except FileFault (List Char) := FileSystem.readText w p

def listFiles (w : Workspace) (directory : Path) (suffixes : List String) :
    Except FileFault (List Path) := FileSystem.listFiles w directory suffixes

end KotlinSchema.Workspace
