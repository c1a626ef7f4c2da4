import KotlinSchema.Extraction
import KotlinSchema.Json.Printer
import KotlinSchema.Model.SchemaKind
import KotlinSchema.Schema.Builder
import KotlinSchema.Workspace.Files

/-! From a directory of sources to a schema file. A run reports events as it goes, whether or not it
comes to an end. -/

namespace KotlinSchema
open Source

inductive Stage where
  | scanning
  | building
  deriving DecidableEq, Repr

def Stage.name : Stage → String
  | scanning => "Scanning"
  | building => "Building"

inductive Event where
  | notice (n : Notice)
  | progress (stage : Stage) (done total : Nat)
  deriving DecidableEq, Repr

inductive FailureOf (φ : Type) where
  | missingSchemaDirectory (directory : Path)
  | unbalancedBlock (fault : UnbalancedBlock)
  | rootNotFound (fault : RootNotFound)
  | file (fault : φ)
  deriving DecidableEq, Repr

abbrev Failure := FailureOf FileFault

def FailureOf.message {φ : Type} [ToString φ] : FailureOf φ → String
  | missingSchemaDirectory directory =>
    "Invalid source directory. Expected to find: " ++ directory.toString
  | unbalancedBlock fault => fault.message
  | rootNotFound fault => fault.message
  | file fault => toString fault

structure ReportOf (φ α : Type) where
  events : List Event
  outcome : Except (FailureOf φ) α

abbrev Report (α : Type) := ReportOf FileFault α

namespace ReportOf
variable {φ α β : Type}

def ofExcept (outcome : Except (FailureOf φ) α) : ReportOf φ α := ⟨[], outcome⟩

def tell (events : List Event) : ReportOf φ Unit := ⟨events, .ok ()⟩

def bind (r : ReportOf φ α) (f : α → ReportOf φ β) : ReportOf φ β :=
  match r.outcome with
  | .ok a => ⟨r.events ++ (f a).events, (f a).outcome⟩
  | .error e => ⟨r.events, .error e⟩

instance : Monad (ReportOf φ) where
  pure a := ⟨[], .ok a⟩
  bind := bind

theorem outcome_bind (r : ReportOf φ α) (f : α → ReportOf φ β) :
    (r >>= f).outcome = r.outcome.bind fun a => (f a).outcome := by
  simp only [Bind.bind, ReportOf.bind]
  split
  · rename_i a ha
    rw [ha]
    rfl
  · rename_i e he
    rw [he]
    rfl

end ReportOf

structure Config where
  sourceDirectory : Path := .relative []
  outputPath : Path := .relative ["module-schema.json"]
  schemaType : String := "module"
  schemaSubdirectory : String := "frontend-api/src/org/jetbrains/amper/frontend/schema"
  suffixes : List String := [".kt"]

def Config.schemaDirectory (c : Config) : Path :=
  c.sourceDirectory ++ Path.ofString c.schemaSubdirectory

namespace Pipeline
variable {σ φ : Type} [FileSystem σ φ]

def readFile (s : σ) (g : TypeGraph) (p : Path) : ReportOf φ TypeGraph := do
  ReportOf.tell [.notice (.parsing p.name)]
  let source ← .ofExcept ((FileSystem.readText s p).mapError .file)
  let (outcome, g) := (TypeGraph.parse source (some p.toString)).run.run g
  let notices ← .ofExcept (outcome.mapError .unbalancedBlock)
  ReportOf.tell (notices.map .notice)
  return g

def readFiles (s : σ) (total : Nat) (g : TypeGraph) : List Path → ReportOf φ TypeGraph
  | [] => return g
  | p :: rest => do
    ReportOf.tell [.progress .scanning (total - (rest.length + 1)) total]
    let g ← readFile s g p
    readFiles s total g rest

def scan (s : σ) (c : Config) : ReportOf φ TypeGraph := do
  let directory := c.schemaDirectory
  if ← .ofExcept ((FileSystem.isDirectory s directory).mapError .file) then
    let files ← .ofExcept ((FileSystem.listFiles s directory c.suffixes).mapError .file)
    ReportOf.tell [.notice (.scanning files.length directory.toString)]
    let g ← readFiles s files.length .empty files
    ReportOf.tell [.progress .scanning files.length files.length]
    ReportOf.tell [.notice (.parsed g.classes.size g.enums.size)]
    return g.resolve
  else .ofExcept (.error (.missingSchemaDirectory directory))

structure Summary where
  outputPath : Path
  rootType : String
  classCount : Nat
  enumCount : Nat
  definitionCount : Nat
  deriving DecidableEq, Repr

/-- The text of a schema and the summary of the run that wrote it. -/
def document (s : σ) (c : Config) : ReportOf φ (String × Summary) := do
  let g ← scan s c
  let (kind, notices) := SchemaKind.ofKeyword c.schemaType
  ReportOf.tell (notices.map .notice ++ [.progress .building 0 1])
  let (builder, notices) ← .ofExcept ((Builder.build g {} kind.rootType).mapError .rootNotFound)
  ReportOf.tell (notices.map .notice ++ [.progress .building 1 1])
  return ((builder.document kind.rootType).render,
    ⟨c.outputPath, kind.rootType, g.classes.size, g.enums.size, builder.definitions.size⟩)

/-- Writes a file, with the directories missing on the way to it. -/
def writeOutput (s : σ) (p : Path) (text : String) : σ × Option φ :=
  match FileSystem.makeDirectories s p.parent with
  | (s, some fault) => (s, some fault)
  | (s, none) =>
    match FileSystem.write s p text.toUTF8.toList with
    | .done after => (after, none)
    | .refused fault => (s, some fault)
    | .brokenOff after fault => (after, some fault)

/-- Generates the schema of a directory and writes it. Nothing is written before the whole schema is
there. -/
def generate (s : σ) (c : Config) : σ × ReportOf φ Summary :=
  let made := document s c
  match made.outcome with
  | .error e => (s, ⟨made.events, .error e⟩)
  | .ok (text, summary) =>
    match writeOutput s c.outputPath text with
    | (after, some fault) => (after, ⟨made.events, .error (.file fault)⟩)
    | (after, none) =>
      (after, ⟨made.events ++ [.notice (.written c.outputPath.toString)], .ok summary⟩)

end Pipeline

end KotlinSchema
