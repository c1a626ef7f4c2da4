import KotlinSchema.Model.Table
import KotlinSchema.Text.Quoted
import KotlinSchema.Workspace.Path

/-! A workspace: a tree of files and directories, in one of which paths start that are not absolute.
A location is the path from the root without detours. Names and paths have a greatest size, counted
in bytes, and hold no null character. -/

namespace KotlinSchema

inductive Node where
  | file (content : List UInt8)
  | directory
  deriving DecidableEq, Repr

structure Workspace where
  current : List String := []
  nodes : Table (List String) Node := .empty
  deriving DecidableEq

inductive FaultKind where
  | notFound
  | alreadyExists
  | notDirectory
  | isDirectory
  | nameTooLong
  | nullCharacter
  deriving DecidableEq, Repr

structure FileFault where
  kind : FaultKind
  path : Path
  deriving DecidableEq, Repr

/-- The number that stands for a fault. A path with a null character is refused before any file is
asked for, and has none. -/
def FaultKind.number? : FaultKind → Option Nat
  | notFound => some 2
  | alreadyExists => some 17
  | notDirectory => some 20
  | isDirectory => some 21
  | nameTooLong => some 36
  | nullCharacter => none

def FaultKind.text : FaultKind → String
  | notFound => "No such file or directory"
  | alreadyExists => "File exists"
  | notDirectory => "Not a directory"
  | isDirectory => "Is a directory"
  | nameTooLong => "File name too long"
  | nullCharacter => "embedded null byte"

def FileFault.message (f : FileFault) : String :=
  match f.kind.number? with
  | none => f.kind.text
  | some n =>
    "[Errno " ++ toString n ++ "] " ++ f.kind.text ++ ": " ++ Text.quoted f.path.toString

instance : ToString FileFault := ⟨FileFault.message⟩

namespace Workspace

/-- A directory with nothing in it, and nothing beside it. -/
def empty : Workspace := ⟨["home"], .ofList [(["home"], .directory)]⟩

/-- What is at a location. The root is always there. -/
def node? (w : Workspace) (location : List String) : Option Node :=
  if location = [] then some .directory else w.nodes.get? location

def nameLimit : Nat := 255

def pathLimit : Nat := 4095

def isTooLong (p : Path) : Bool := pathLimit < p.toString.utf8ByteSize

/-- The location one step from another one. There is nothing above the root. -/
def advance (location : List String) (step : String) : List String :=
  if step = ".." then location.dropLast
  else if step = "" ∨ step = "." then location else location ++ [step]

/-- The location that steps lead to from another one. All on the way must be directories; the end
need not exist. -/
def follow (w : Workspace) : List String → List String → Except FaultKind (List String)
  | location, [] => .ok location
  | location, step :: steps =>
    match w.node? location with
    | none => .error .notFound
    | some (.file _) => .error .notDirectory
    | some .directory =>
      if nameLimit < step.utf8ByteSize then .error .nameTooLong
      else w.follow (advance location step) steps

def steps (w : Workspace) (anchor : Anchor) (parts : List String) : List String :=
  if anchor = .current then w.current ++ parts else parts

/-- The location that steps from the root lead to, where they are given by a text. -/
def followText (w : Workspace) (text : String) (steps : List String) :
    Except FaultKind (List String) :=
  if steps.any fun step => step.toList.contains '\x00' then .error .nullCharacter
  else if pathLimit < text.utf8ByteSize then .error .nameTooLong
  else w.follow [] steps

def locate (w : Workspace) (p : Path) : Except FaultKind (List String) :=
  w.followText p.toString (w.steps p.anchor p.parts)

/-- Where a path leads and what is there. A path that leads nowhere is no fault, but one that is too
long is. -/
def find? (w : Workspace) (p : Path) : Except FileFault (Option (List String × Node)) :=
  match w.locate p with
  | .ok location => .ok ((w.node? location).map fun node => (location, node))
  | .error .nameTooLong => .error ⟨.nameTooLong, p⟩
  | .error _ => .ok none

/-- What the text of a path leads to. One that ends with a slash leads to a directory or nowhere. -/
def findText? (w : Workspace) (text : String) : Option Node :=
  if text.isEmpty then none
  else match w.followText text (w.steps (Anchor.ofText text) (Path.steps text)) with
    | .ok location => w.node? location
    | .error _ => none

def isDirectory (w : Workspace) (p : Path) : Bool :=
  match w.find? p with
  | .ok (some (_, .directory)) => true
  | _ => false

end Workspace

end KotlinSchema
