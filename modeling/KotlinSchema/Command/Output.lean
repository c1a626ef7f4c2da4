import KotlinSchema.Pipeline
import KotlinSchema.Text.ControlSequence

/-! Commands, and the command line around them. A command is run with options and leaves lines; the
command line reads the options from the arguments of a call and makes its output of the lines. -/

namespace KotlinSchema.Command

structure Output where
  exitCode : Nat
  stdout : String
  stderr : String
  deriving DecidableEq, Repr

/-- A line that a command leaves: of its answer, beside it, or a notice that is shown. -/
inductive Line where
  | answer (text : String)
  | remark (text : String)
  | notice (n : Notice)
  deriving DecidableEq, Repr

inductive Ending where
  | returned
  | failed (message : String)
  deriving DecidableEq, Repr

structure Transcript where
  lines : List Line
  ending : Ending
  deriving DecidableEq, Repr

inductive Style where
  | cyan
  | magenta
  | dim
  deriving DecidableEq, Repr

structure GenerateOptions where
  sourceDirectory : Path
  outputPath : Path
  schemaType : String
  schemaSubdirectory : String
  isVerbose : Bool
  deriving DecidableEq, Repr

structure ScanOptions where
  sourceDirectory : Path
  schemaSubdirectory : String
  isVerbose : Bool
  deriving DecidableEq, Repr

/-- What is around the commands: how the arguments of a call are read, with the files at hand looked
at but left as they are, and what is printed. A call that is answered before its command is run
comes to an output at once. -/
structure CommandLine (σ : Type) where
  generateOptions : σ → List String → Except Output GenerateOptions
  scanOptions : σ → List String → Except Output ScanOptions
  style : Style → String → String
  output : Transcript → Output

/-- The notice as a line, if it is shown. Without verbosity only warnings are. -/
def noticeLine? (verbose : Bool) (n : Notice) : Option Line :=
  if verbose || n.severity == .warning then some (.notice n) else none

end KotlinSchema.Command
