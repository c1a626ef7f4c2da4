import KotlinSchema.Notice

/-! The kinds of schema that have a name, each with its root class. -/

namespace KotlinSchema

inductive SchemaKind where
  | module
  | template
  | project
  deriving DecidableEq, Repr

namespace SchemaKind

def keyword : SchemaKind → String
  | module => "module"
  | template => "template"
  | project => "project"

def rootType : SchemaKind → String
  | module => "Module"
  | template => "Template"
  | project => "Project"

def all : List SchemaKind := [module, template, project]

def find? (word : String) : Option SchemaKind :=
  all.find? fun kind => kind.keyword.toList == word.toList.map Char.toLower

/-- The kind that a word asks for: the module kind, with a notice, if there is none of its name. -/
def ofKeyword (word : String) : SchemaKind × List Notice :=
  match find? word with
  | some kind => (kind, [])
  | none => (module, [.unknownSchemaKind word])

end SchemaKind

end KotlinSchema
