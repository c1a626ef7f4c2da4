import KotlinSchema.Text.Lines
import KotlinSchema.Text.Utf8
import KotlinSchema.Workspace.Path

/-! What a program asks of the files around it. What only looks at them leaves them as they are. -/

namespace KotlinSchema

/-- What it comes to when a file is written. It is refused before the file is opened, or breaks off
after that. -/
inductive Writing (σ φ : Type) where
  | done (after : σ)
  | refused (fault : φ)
  | brokenOff (after : σ) (fault : φ)

/-- Files, in states of one type, with faults of another one. The files below a directory come in
any order. After a fault the directories made before it stay. -/
class FileSystem (σ : Type) (φ : outParam Type) where
  isDirectory : σ → Path → Except φ Bool
  filesBelow : σ → Path → Except φ (List Path)
  readBytes : σ → Path → Except φ (List UInt8)
  makeDirectories : σ → Path → σ × Option φ
  write : σ → Path → List UInt8 → Writing σ φ

namespace FileSystem
open Text
variable {σ φ : Type} [FileSystem σ φ]

def readText (s : σ) (p : Path) : Except φ (List Char) :=
  (readBytes s p).map fun content => unifyNewlines (Utf8.decode content)

/-- The files below a directory with one of the given suffixes, in the order of their parts. -/
def listFiles (s : σ) (directory : Path) (suffixes : List String) : Except φ (List Path) :=
  (filesBelow s directory).map fun found =>
    (found.mergeSort fun p q => !q.isBefore p).filter fun p => suffixes.contains p.suffix

end FileSystem

end KotlinSchema
