import KotlinSchema.Text.Quoted
import KotlinSchema.Text.Similarity

/-! Command-line arguments: options with and without values among plain arguments. -/

namespace KotlinSchema.Command

inductive Opt where
  | output
  | schemaType
  | schemaSubdirectory
  | verbose
  | version
  | help
  deriving DecidableEq, Repr

def Opt.letter? : Opt → Option Char
  | output => some 'o'
  | verbose => some 'v'
  | _ => none

def Opt.longName : Opt → String
  | output => "--output"
  | schemaType => "--schema-type"
  | schemaSubdirectory => "--schema-subdir"
  | verbose => "--verbose"
  | version => "--version"
  | help => "--help"

def Opt.takesValue : Opt → Bool
  | output | schemaType | schemaSubdirectory => true
  | verbose | version | help => false

inductive UsageFault where
  | unknownOption (name : String) (similar : List String)
  | missingValue (name : String)
  | unwantedValue (name : String)
  | missingArgument (name : String)
  | missingDirectory (name : String) (text : String)
  | notDirectory (name : String) (text : String)
  | outputIsDirectory (text : String)
  | extraArguments (arguments : List String)
  | unknownCommand (name : String)
  | missingCommand
  | nullCharacter
  deriving DecidableEq, Repr

namespace UsageFault

def message : UsageFault → String
  | unknownOption name similar =>
    "No such option: " ++ name ++ match similar with
      | [] => ""
      | [one] => " Did you mean " ++ one ++ "?"
      | many => " (Possible options: " ++ ", ".intercalate many ++ ")"
  | missingValue name => "Option " ++ Text.quoted name ++ " requires an argument."
  | unwantedValue name => "Option " ++ Text.quoted name ++ " does not take a value."
  | missingArgument name => "Missing argument '" ++ name ++ "'."
  | missingDirectory name text =>
    "Invalid value for '" ++ name ++ "': Directory " ++ Text.quoted text ++ " does not exist."
  | notDirectory name text =>
    "Invalid value for '" ++ name ++ "': Directory " ++ Text.quoted text ++ " is a file."
  | outputIsDirectory text =>
    "Invalid value for '-o' / '--output': File " ++ Text.quoted text ++ " is a directory."
  | extraArguments [one] => "Got unexpected extra argument (" ++ one ++ ")"
  | extraArguments many => "Got unexpected extra arguments (" ++ " ".intercalate many ++ ")"
  | unknownCommand name => "No such command " ++ Text.quoted name ++ "."
  | missingCommand => "Missing command."
  | nullCharacter => "embedded null byte"

/-- Whether the message comes with a reminder of the usage: not where a value is missing or not
wanted. -/
def remindsOfUsage : UsageFault → Bool
  | missingValue _ | unwantedValue _ => false
  | _ => true

end UsageFault

structure Arguments where
  options : List (Opt × String)
  plain : List String
  deriving DecidableEq, Repr

namespace Arguments

def has (a : Arguments) (o : Opt) : Bool := a.options.any fun p => p.1 == o

def value? (a : Arguments) (o : Opt) : Option String :=
  ((a.options.reverse.find? fun p => p.1 == o).map Prod.snd)

/-- The options of a cluster of letters, and how many of the arguments after it they take. An option
with a value takes the rest of the cluster or else the next argument. -/
def readLetters (known : List Opt) (next : List String) :
    List Char → Except UsageFault (List (Opt × String) × Nat)
  | [] => .ok ([], 0)
  | c :: cs =>
    let name := String.ofList ['-', c]
    match known.find? fun o => o.letter? == some c with
    | none => .error (.unknownOption name [])
    | some o =>
      if o.takesValue then
        match cs, next with
        | _ :: _, _ => .ok ([(o, String.ofList cs)], 0)
        | [], value :: _ => .ok ([(o, value)], 1)
        | [], [] => .error (.missingValue name)
      else (readLetters known next cs).map fun (os, n) => ((o, "") :: os, n)

/-- The options of an argument that begins with a dash, and how many of the arguments after it they
take. -/
def readOptions (known : List Opt) (argument : String) (next : List String) :
    Except UsageFault (List (Opt × String) × Nat) :=
  let chars := argument.toList
  let name := String.ofList (chars.takeWhile (· != '='))
  let attached := chars.dropWhile (· != '=')
  match known.find? fun o => o.longName == name with
  | some o =>
    if o.takesValue then
      match attached, next with
      | _ :: value, _ => .ok ([(o, String.ofList value)], 0)
      | [], value :: _ => .ok ([(o, value)], 1)
      | [], [] => .error (.missingValue name)
    else if attached.isEmpty then .ok ([(o, "")], 0)
    else .error (.unwantedValue name)
  | none =>
    match chars with
    | '-' :: '-' :: _ => .error (.unknownOption name (Text.similarTo name (known.map Opt.longName)))
    | _ => readLetters known next (chars.drop 1)

def looksLikeOption (argument : String) : Bool :=
  match argument.toList with
  | '-' :: _ :: _ => true
  | _ => false

/-- Reads arguments from left to right. Two dashes end the options. Where options and plain
arguments may not be mixed, the first plain argument ends them too. -/
def read (known : List Opt) (mixed : Bool) : List String → Except UsageFault Arguments
  | [] => .ok ⟨[], []⟩
  | argument :: next =>
    if argument = "--" then .ok ⟨[], next⟩
    else if looksLikeOption argument then do
      let (options, taken) ← readOptions known argument next
      let rest ← read known mixed (next.drop taken)
      return ⟨options ++ rest.options, rest.plain⟩
    else if mixed then
      (read known mixed next).map fun rest => ⟨rest.options, argument :: rest.plain⟩
    else .ok ⟨[], argument :: next⟩
termination_by arguments => arguments.length
decreasing_by
  all_goals
    simp only [List.length_drop, List.length_cons]
    omega

end Arguments

end KotlinSchema.Command
