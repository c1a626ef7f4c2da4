import KotlinSchema.Command.Output

/-! The command that generates a schema file. -/

namespace KotlinSchema.Command
variable {σ φ : Type} [FileSystem σ φ] [ToString φ]

def GenerateOptions.config (o : GenerateOptions) : Config where
  sourceDirectory := o.sourceDirectory
  outputPath := o.outputPath
  schemaType := o.schemaType
  schemaSubdirectory := o.schemaSubdirectory

/-- The lines that events leave. Progress is told where a stage is done. -/
def eventLines (verbose : Bool) (events : List Event) : List Line :=
  events.filterMap fun
    | .notice n => noticeLine? verbose n
    | .progress stage done total =>
      if verbose && done == total then
        some (.remark ("  " ++ stage.name ++ ": " ++ toString done ++ "/" ++ toString total))
      else none

def runGenerate (s : σ) (o : GenerateOptions) : σ × Transcript :=
  let (after, report) := Pipeline.generate s o.config
  let opening :=
    if o.isVerbose then
      [.remark ("Source directory: " ++ o.sourceDirectory.toString),
        .remark ("Output file: " ++ o.outputPath.toString)]
    else []
  let told := opening ++ eventLines o.isVerbose report.events
  match report.outcome with
  | .error e => (after, ⟨told, .failed e.message⟩)
  | .ok made =>
    let closing :=
      if o.isVerbose then
        [.remark ("Parsed " ++ toString made.classCount ++ " types, " ++ toString made.enumCount ++
          " enums; " ++ toString made.definitionCount ++ " definitions for " ++ made.rootType)]
      else []
    let answer := .answer ("Schema extracted successfully: " ++ made.outputPath.toString)
    (after, ⟨told ++ closing ++ [answer], .returned⟩)

def generate (line : CommandLine σ) (s : σ) (arguments : List String) : σ × Output :=
  match line.generateOptions s arguments with
  | .error output => (s, output)
  | .ok o => ((runGenerate s o).1, line.output (runGenerate s o).2)

end KotlinSchema.Command
