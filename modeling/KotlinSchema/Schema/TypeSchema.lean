import KotlinSchema.Json.Basic
import KotlinSchema.Model.Graph
import KotlinSchema.Source.TypeRef

/-! Schemas of the types that properties refer to. -/

namespace KotlinSchema

abbrev Schema := Table String Json

namespace Schema

def toJson (s : Schema) : Json := .obj s.entries

def dialect : String := "https://json-schema.org/draft/2020-12/schema"

def reference (name : String) : Schema := .ofList [("$ref", .str ("#/$defs/" ++ name))]

def primitive? : String → Option String
  | "String" | "TraceableString" | "Path" | "TraceablePath" => some "string"
  | "Int" | "Integer" | "Long" => some "integer"
  | "Boolean" => some "boolean"
  | "Double" | "Float" => some "number"
  | _ => none

def tracedEnum? (typeName : String) : Option String :=
  (Source.unwrap? "TraceableEnum" typeName.toList).map String.ofList

inductive Meaning where
  | enumType (e : EnumType)
  | classType (c : ClassType)
  | primitive (name : String)
  | unresolved
  deriving DecidableEq, Repr

/-- The meaning of a type name. Enums win over classes, and these over traceable enums and
primitives. -/
def meaning (g : TypeGraph) (typeName : String) : Meaning :=
  match g.enums.get? typeName with
  | some e => .enumType e
  | none =>
    match g.classes.get? typeName with
    | some c => .classType c
    | none =>
      match (tracedEnum? typeName).bind g.enums.get? with
      | some e => .enumType e
      | none =>
        match primitive? typeName with
        | some name => .primitive name
        | none => .unresolved

def ofEnum (e : EnumType) : Schema :=
  let values : Schema := .ofList [("enum", .arr (e.active.map fun x => .str x.schemaValue))]
  let docs : Schema := .ofList <| e.active.filterMap fun x =>
    match x.doc with
    | none | some "" => none
    | some doc => some (x.schemaValue, .str doc)
  let documented :=
    if docs.entries.isEmpty then values else values.insert "x-intellij-enum-metadata" docs.toJson
  if e.isOrderSensitive then
    documented.insert "x-intellij-enum-order-sensitive" (.bool true)
  else documented

/-- The schema of a type name. One without a meaning is taken for a string. -/
def ofType (g : TypeGraph) (typeName : String) : Schema :=
  match meaning g typeName with
  | .enumType e => ofEnum e
  | .classType _ => reference typeName
  | .primitive name => .ofList [("type", .str name)]
  | .unresolved => .ofList [("type", .str "string"), ("description", .str ("Type: " ++ typeName))]

end Schema

end KotlinSchema
