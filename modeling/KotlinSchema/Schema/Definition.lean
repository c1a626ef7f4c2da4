import KotlinSchema.Model.Ancestry
import KotlinSchema.Schema.Title
import KotlinSchema.Schema.TypeSchema

/-! Definitions: the schema of a property and of a class. They depend on the graph alone. -/

namespace KotlinSchema.Schema

/-- The keys that the single entry of a map item may have. -/
def mapKeyPattern : String := "^[^@+:]+$"

/-- The keys of a property that may carry a qualifier, with or without the test mark in front. -/
def modifierPattern (name : String) : String :=
  if "test-".toList.isPrefixOf name.toList then "^" ++ name ++ "(@.+)?$"
  else "^(test-)?" ++ name ++ "(@.+)?$"

def listOf (items : Schema) : Schema :=
  .ofList [("type", .str "array"), ("items", items.toJson), ("uniqueItems", .bool true)]

/-- A map is a list of objects with one member each. -/
def mapOf (values : Schema) : Schema :=
  let patterns : Schema := .ofList [(mapKeyPattern, values.toJson)]
  listOf <| .ofList [("type", .str "object"), ("patternProperties", patterns.toJson),
    ("additionalProperties", .bool false), ("minProperties", .int 1), ("maxProperties", .int 1)]

def withDoc (doc : Option String) (s : Schema) : Schema :=
  match doc with
  | none | some "" => s
  | some doc => (s.insert "description" (.str doc)).insert "title" (.str (shortTitle doc))

def withTargets (platforms productTypes : List String) (s : Schema) : Schema :=
  let ofNames := fun (key : String) (names : List String) =>
    if names.isEmpty then [] else [(key, Json.arr (names.map .str))]
  let targets := ofNames "platforms" platforms ++ ofNames "productTypes" productTypes
  if targets.isEmpty then s else s.insert "x-intellij-metadata" (.obj targets)

def propertyOf (p : Property) (type : Schema) : Schema :=
  let shaped := if p.isList then listOf type else if p.isMap then mapOf type else type
  withTargets p.platforms p.productTypes (withDoc p.doc shaped)

def ofProperty (g : TypeGraph) (p : Property) : Schema := propertyOf p (ofType g p.typeName)

def visibleProperties (g : TypeGraph) (c : ClassType) : List Property :=
  (g.effectiveProperties c).filter fun p => !p.isHidden

def requiredNames (g : TypeGraph) (c : ClassType) : List String :=
  ((visibleProperties g c).filter (·.isRequired)).map (·.name)

def withMember (present : Bool) (key : String) (value : Json) (s : Schema) : Schema :=
  if present then s.insert key value else s

/-- The schema of a class without variants, given its visible properties with their schemas. -/
def objectOf (g : TypeGraph) (c : ClassType) (shown : List (Property × Schema)) : Schema :=
  let properties : Schema := .ofList (shown.map fun s => (s.1.name, s.2.toJson))
  let patterns : Schema := .ofList ((shown.filter (·.1.isModifierAware)).map fun s =>
    (modifierPattern s.1.name, s.2.toJson))
  let required := requiredNames g c
  -- A list of all effective properties would say nothing.
  let isListed := !required.isEmpty && required.length < (g.effectiveProperties c).length
  let doc := c.doc.getD ""
  (.ofList [("type", .str "object"), ("additionalProperties", .bool false)] : Schema)
    |> withMember (!properties.entries.isEmpty) "properties" properties.toJson
    |> withMember (!patterns.entries.isEmpty) "patternProperties" patterns.toJson
    |> withMember isListed "required" (.arr (required.map .str))
    |> withMember (!doc.isEmpty) "title" (.str doc)

def ofObject (g : TypeGraph) (c : ClassType) : Schema :=
  objectOf g c ((visibleProperties g c).map fun p => (p, ofProperty g p))

def variants (g : TypeGraph) (c : ClassType) : List String :=
  c.subclasses.filter fun name => g.classes.contains name

def variantsOf (references : List Schema) : Schema :=
  .ofList [("anyOf", .arr (references.map toJson))]

def ofVariants (g : TypeGraph) (c : ClassType) : Schema :=
  variantsOf ((variants g c).map reference)

def ofClass (g : TypeGraph) (c : ClassType) : Schema :=
  if c.isSealed then ofVariants g c else ofObject g c

end KotlinSchema.Schema
