import KotlinSchema.Command.Output

/-! The command that lists the classes and enums of a source directory. -/

namespace KotlinSchema.Command
open Text
variable {σ φ : Type} [FileSystem σ φ] [ToString φ]

def ScanOptions.config (o : ScanOptions) : Config where
  sourceDirectory := o.sourceDirectory
  schemaSubdirectory := o.schemaSubdirectory

def classLines (style : Style → String → String) (c : ClassType) : List String :=
  let parent := match c.parent with
    | none | some "" => ""
    | some p => " : " ++ p
  let marker := if c.isSealed then style .magenta "sealed" else ""
  let line := "  " ++ c.name ++ parent ++ "  " ++ toString c.properties.length ++
    " properties  " ++ marker
  let variants :=
    if c.isSealed && !c.subclasses.isEmpty then
      [style .dim ("    variants: " ++ ", ".intercalate c.subclasses)]
    else []
  String.ofList (dropTrailing isBlank line.toList) :: variants

def enumLine (e : EnumType) : String :=
  let outdated := e.entries.length - e.active.length
  let remark := if outdated = 0 then "" else " (" ++ toString outdated ++ " outdated)"
  "  " ++ e.name ++ "  " ++ toString e.active.length ++ " values" ++ remark

def listing (style : Style → String → String) (g : TypeGraph) : List String :=
  if g.classes.size = 0 ∧ g.enums.size = 0 then ["No schema declarations found."]
  else
    [style .cyan "Classes"] ++ g.classes.values.flatMap (classLines style) ++
      [style .cyan "Enums"] ++ g.enums.values.map enumLine ++
      ["", "Summary:", "  classes: " ++ toString g.classes.size,
        "  enums: " ++ toString g.enums.size]

def runScan (style : Style → String → String) (s : σ) (o : ScanOptions) : Transcript :=
  let report := Pipeline.scan s o.config
  let told := report.events.filterMap fun
    | .notice n => noticeLine? o.isVerbose n
    | .progress .. => none
  match report.outcome with
  | .error e => ⟨told, .failed e.message⟩
  | .ok g => ⟨told ++ (listing style g).map .answer, .returned⟩

def scan (line : CommandLine σ) (s : σ) (arguments : List String) : σ × Output :=
  match line.scanOptions s arguments with
  | .error output => (s, output)
  | .ok o => (s, line.output (runScan line.style s o))

end KotlinSchema.Command
