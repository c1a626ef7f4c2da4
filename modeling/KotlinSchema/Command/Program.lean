import KotlinSchema.Command.Arguments
import KotlinSchema.Command.Generate
import KotlinSchema.Command.Scan
import KotlinSchema.Text.Lines

/-! The program on a workspace. Its commands run with any command line; this is the one they are
used with. What it says itself is printed without control sequences, while notices keep theirs. -/

namespace KotlinSchema.Command

section Printing

def lines (ls : List String) : String :=
  String.ofList (Text.dropReturns (String.join (ls.map (· ++ "\n"))).toList)

def say (ls : List String) : String := lines (ls.map Text.withoutControlSequences)

def Style.code : Style → String
  | cyan => "36"
  | magenta => "35"
  | dim => "2"

def styled (style : Style) (text : String) : String :=
  "\x1b[" ++ style.code ++ "m" ++ text ++ "\x1b[0m"

def outputOf (t : Transcript) : Output :=
  let answers := t.lines.filterMap fun
    | .answer text => some text
    | _ => none
  let told := t.lines.map fun
    | .answer _ => ""
    | .remark text => say [text]
    | .notice n => lines [n.line]
  match t.ending with
  | .returned => ⟨0, say answers, String.join told⟩
  | .failed message => ⟨1, say answers, String.join told ++ say ["Error: " ++ message]⟩

end Printing

section Usages

structure Usage where
  name : String
  arguments : String
  deriving DecidableEq, Repr

def Usage.line (u : Usage) : String := "Usage: " ++ u.name ++ " " ++ u.arguments

/-- The output for a wrong use of a command. A path with a null character ends the program at once,
without a word. -/
def Usage.fault (u : Usage) (f : UsageFault) : Output :=
  if f = .nullCharacter then ⟨1, "", ""⟩
  else
    let reminder := [u.line, "Try '" ++ u.name ++ " --help' for help.", ""]
    ⟨2, "", say ((if f.remindsOfUsage then reminder else []) ++ ["Error: " ++ f.message])⟩

def generateUsage : Usage := ⟨"cli generate", "[OPTIONS] SOURCE_DIR"⟩

def scanUsage : Usage := ⟨"cli scan", "[OPTIONS] SOURCE_DIR"⟩

def programUsage : Usage := ⟨"cli", "[OPTIONS] COMMAND [ARGS]..."⟩

def generateHelp : String := lines
  [generateUsage.line, "",
    "  Extract a JSON Schema from the schema sources in SOURCE_DIR.", "",
    "Options:",
    "  -o, --output FILE     Output file for the JSON Schema  [default: module-",
    "                        schema.json]",
    "  --schema-type TEXT    Schema root to generate: module, template, project",
    "                        [default: module]",
    "  --schema-subdir TEXT  Directory of schema sources, relative to SOURCE_DIR",
    "                        [default: frontend-",
    "                        api/src/org/jetbrains/amper/frontend/schema]",
    "  -v, --verbose         Enable verbose output",
    "  --help                Show this message and exit."]

def scanHelp : String := lines
  [scanUsage.line, "",
    "  List the schema classes and enums recovered from SOURCE_DIR.", "",
    "Options:",
    "  --schema-subdir TEXT  Directory of schema sources, relative to SOURCE_DIR",
    "                        [default: frontend-",
    "                        api/src/org/jetbrains/amper/frontend/schema]",
    "  -v, --verbose         Enable verbose output",
    "  --help                Show this message and exit."]

def programHelp : String := lines
  [programUsage.line, "",
    "  schema-extract: Generate a JSON Schema from Kotlin schema declarations.", "",
    "Options:",
    "  --version  Show the version and exit.",
    "  --help     Show this message and exit.", "",
    "Commands:",
    "  generate  Extract a JSON Schema from the schema sources in SOURCE_DIR.",
    "  scan      List the schema classes and enums recovered from SOURCE_DIR."]

def versionLine : String := "cli, version 0.1.0"

end Usages

section Options
variable (w : Workspace) (a : Arguments)

def sourceArgument : String := "SOURCE_DIR"

def lookUp (text : String) : Except UsageFault (Option Node) :=
  if text.toList.contains '\x00' then .error .nullCharacter else .ok (w.findText? text)

def sourceDirectory (plain : List String) : Except UsageFault String :=
  match plain with
  | [] => .error (.missingArgument sourceArgument)
  | text :: _ => do
    match ← lookUp w text with
    | none => .error (.missingDirectory sourceArgument text)
    | some (.file _) => .error (.notDirectory sourceArgument text)
    | some .directory => .ok text

def outputFile (text : String) : Except UsageFault String := do
  match ← lookUp w text with
  | some .directory => .error (.outputIsDirectory text)
  | _ => .ok text

def noExtra (plain : List String) : Except UsageFault Unit :=
  match plain.drop 1 with
  | [] => .ok ()
  | extra => .error (.extraArguments extra)

def Arguments.schemaSubdirectory : String :=
  (a.value? .schemaSubdirectory).getD ({} : Config).schemaSubdirectory

/-- The options of a call that generates a schema. An output file that is given is looked at before
the source directory, and the usual one after it. -/
def readGenerate : Except UsageFault GenerateOptions := do
  let given ← (a.value? .output).mapM (outputFile w)
  let source ← sourceDirectory w a.plain
  let output ← match given with
    | some text => pure text
    | none => outputFile w "module-schema.json"
  noExtra a.plain
  let schemaType := (a.value? .schemaType).getD ({} : Config).schemaType
  return ⟨Path.ofString source, Path.ofString output, schemaType, a.schemaSubdirectory,
    a.has .verbose⟩

def readScan : Except UsageFault ScanOptions := do
  let source ← sourceDirectory w a.plain
  noExtra a.plain
  return ⟨Path.ofString source, a.schemaSubdirectory, a.has .verbose⟩

/-- Options that are read from arguments. A call for help is answered before they are looked at. -/
def readCall {α : Type} (usage : Usage) (help : String) (known : List Opt)
    (read : Arguments → Except UsageFault α) (arguments : List String) : Except Output α :=
  match Arguments.read known true arguments with
  | .error f => .error (usage.fault f)
  | .ok a =>
    if a.has .help then .error ⟨0, help, ""⟩ else (read a).mapError usage.fault

def commandLine : CommandLine Workspace where
  generateOptions w := readCall generateUsage generateHelp
    [.output, .schemaType, .schemaSubdirectory, .verbose, .help] (readGenerate w)
  scanOptions w := readCall scanUsage scanHelp [.schemaSubdirectory, .verbose, .help] (readScan w)
  style := styled
  output := outputOf

end Options

/-- Runs the command that the first plain argument names. A name that begins with a punctuation mark
is not taken for a command but answered with help. -/
def runCommand (w : Workspace) (name : String) (arguments : List String) : Workspace × Output :=
  if name = "generate" then generate commandLine w arguments
  else if name = "scan" then scan commandLine w arguments
  else if name.toList.head?.any fun c => !Text.isWord c || c == '_' then
    (w, ⟨0, programHelp, ""⟩)
  else (w, programUsage.fault (.unknownCommand name))

/-- Runs the program. The first of the options for help and version is answered. -/
def run (w : Workspace) (arguments : List String) : Workspace × Output :=
  if arguments.isEmpty then (w, ⟨0, programHelp, ""⟩)
  else match Arguments.read [.version, .help] false arguments with
    | .error f => (w, programUsage.fault f)
    | .ok a =>
      match a.options with
      | (.version, _) :: _ => (w, ⟨0, lines [versionLine], ""⟩)
      | _ :: _ => (w, ⟨0, programHelp, ""⟩)
      | [] =>
        match a.plain with
        | [] => (w, programUsage.fault .missingCommand)
        | name :: rest => runCommand w name rest

end KotlinSchema.Command
