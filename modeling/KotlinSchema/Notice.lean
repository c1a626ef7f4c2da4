import KotlinSchema.Text.Quoted

/-! Notices: what the program tells about its work besides its result. -/

namespace KotlinSchema

inductive Severity where
  | debug
  | warning
  deriving DecidableEq, Repr

def Severity.name : Severity → String
  | .debug => "DEBUG"
  | .warning => "WARNING"

inductive Notice where
  | classRedeclared (name : String)
  | enumRedeclared (name : String)
  | unknownSchemaKind (keyword : String)
  | noSubclasses (name : String)
  | unresolvedType (name : String)
  | scanning (files : Nat) (directory : String)
  | parsing (fileName : String)
  | parsed (classes enums : Nat)
  | written (path : String)
  deriving DecidableEq, Repr

namespace Notice

def severity : Notice → Severity
  | unknownSchemaKind _ | unresolvedType _ => .warning
  | _ => .debug

def source : Notice → String
  | classRedeclared _ | enumRedeclared _ | unknownSchemaKind _ => "schema_extract.models"
  | noSubclasses _ | unresolvedType _ => "schema_extract.builder.schema_builder"
  | scanning .. | parsing _ | parsed .. | written _ => "schema_extract.pipeline"

def text : Notice → String
  | classRedeclared name => "Class " ++ name ++ " redeclared, keeping the later declaration"
  | enumRedeclared name => "Enum " ++ name ++ " redeclared, keeping the later declaration"
  | unknownSchemaKind keyword =>
    "Unknown schema type " ++ Text.quoted keyword ++ ", defaulting to 'module'"
  | noSubclasses name => "Sealed class " ++ name ++ " has no subclasses"
  | unresolvedType name => "Unresolved type " ++ name ++ ", treating it as a string"
  | scanning files directory =>
    "Scanning " ++ toString files ++ " schema file(s) in " ++ directory
  | parsing fileName => "Parsing " ++ fileName
  | parsed classes enums =>
    "Parsed " ++ toString classes ++ " types, " ++ toString enums ++ " enums"
  | written path => "Wrote schema to " ++ path

def line (n : Notice) : String := n.severity.name ++ " " ++ n.source ++ ": " ++ n.text

end Notice

end KotlinSchema
