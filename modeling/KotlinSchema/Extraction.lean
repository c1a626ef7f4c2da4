import KotlinSchema.Model.Graph
import KotlinSchema.Source.Block
import KotlinSchema.Source.Entry
import KotlinSchema.Source.Property
import KotlinSchema.Source.Scan

/-! From source text to descriptors. Of the classes only those of the schema are described; a source
is added to a graph as a whole or not at all. -/

namespace KotlinSchema
open Text Source

def rootSupertype : String := "SchemaNode"

/-- The supertypes that make a class part of the schema, whatever its name. -/
def schemaSupertypes : List String :=
  [rootSupertype, "Base", "Dependency", "ScopedDependency", "UnscopedDependency",
    "BomDependency", "UnscopedBomDependency"]

def isSettingsName (name : String) : Bool := "Settings".toList.isSuffixOf name.toList

/-- Whether a class belongs to the schema: by its supertype, or because it or its supertype is named
as settings. -/
def isSchemaClass (name : String) (supertype : Option String) : Bool :=
  supertype.any (fun s => schemaSupertypes.contains s) || isSettingsName name ||
    supertype.any isSettingsName

def propertyOf (p : PropertyText) : Property :=
  let (declared, callAt) := p.typeAndCall
  let type := parseTypeRef declared
  let tags := parseAnnotations p.annotations
  { name := String.ofList p.name
    typeName := String.ofList type.typeName
    isNullable := type.isNullable || p.delegation.delegate == .nullableValue
    isList := type.shape == .list
    isMap := type.shape == .map
    doc := Tag.doc? tags
    -- Any argument of the delegate is a default.
    defaultText := ((arguments? callAt).bind defaultText?).map String.ofList
    annotations := tags }

/-- The properties at the top level of a class body. Of several with one name the first counts. -/
def parseProperties (body : List Char) : Except UnbalancedBlock (List Property) := do
  let text ← memberText body
  return ((findAll propertyText? text).map propertyOf).eraseDupsBy fun p q => p.name == q.name

def entryOf (e : EntryText) : EnumEntry :=
  { name := String.ofList e.name
    schemaValue := String.ofList (literalText e.value)
    doc := Tag.doc? (parseAnnotations e.annotations)
    isOutdated := e.isOutdated }

def parseEntries (body : List Char) : Except UnbalancedBlock (List EnumEntry) := do
  let text ← memberText body
  return (findAll entryText? (entrySection text)).map entryOf

def Source.Declaration.isAdmitted (d : Declaration) : Bool :=
  match d.kind with
  | .enumLike => true
  | .classLike => isSchemaClass d.name d.supertype

def extract (source : List Char) (d : Declaration) : Except UnbalancedBlock Descriptor := do
  let body ← block source d.bodyOffset
  match d.kind with
  | .enumLike =>
    let entries ← parseEntries body
    return .ofEnum
      { name := d.name
        doc := Tag.doc? d.annotations
        entries
        isOrderSensitive := (Tag.find? d.annotations Tag.orderSensitiveName).isSome }
  | .classLike =>
    let properties ← parseProperties body
    return .ofClass
      { name := d.name
        doc := Tag.doc? d.annotations
        properties
        isSealed := d.modifier.isSome
        parent := if d.supertype = some rootSupertype then none else d.supertype }

/-- The descriptor of a declaration; nothing if it is a class outside the schema, whose body is not
read. -/
def describe (source : List Char) (d : Declaration) :
    Except UnbalancedBlock (Option Descriptor) :=
  if d.isAdmitted then (extract source d).map some else .ok none

def descriptors (source : List Char) (origin : Option String) :
    Except UnbalancedBlock (List Descriptor) := do
  let found ← (scan source origin).mapM (describe source)
  return found.filterMap id

namespace TypeGraph

/-- Adds all that a source declares, with the notices of what that replaces. Nothing is added before
the whole text has been read. -/
def parse (source : List Char) (origin : Option String) :
    ExceptT UnbalancedBlock (StateM TypeGraph) (List Notice) := do
  let found ← liftExcept (descriptors source origin)
  declareAll found

end TypeGraph

end KotlinSchema
