import KotlinSchema.Schema.Definition

/-! Building a schema: which classes are defined, in which order, and what is noticed on the way. A
builder keeps each definition under the name of its class and takes the slot for it before making
it, so that a class which refers back to itself is not defined again. -/

namespace KotlinSchema

/-- The definitions by the names of their classes, in the order in which their slots were taken,
and the type names already reported as unresolved. -/
structure Builder where
  definitions : Table String Schema := .empty
  reported : List String := []

namespace Builder

def defined (b : Builder) : List String := b.definitions.keys

def store (b : Builder) (name : String) (s : Schema) : Builder :=
  { b with definitions := b.definitions.insert name s }

theorem defined_store (b : Builder) (name : String) (s : Schema) :
    (b.store name s).defined = if name ∈ b.defined then b.defined else b.defined ++ [name] :=
  Table.keys_insert b.definitions name s

theorem defined_store_of_mem {b : Builder} {name : String} (h : name ∈ b.defined) (s : Schema) :
    (b.store name s).defined = b.defined := by
  rw [defined_store, if_pos h]

theorem defined_store_of_not_mem {b : Builder} {name : String} (h : name ∉ b.defined)
    (s : Schema) : (b.store name s).defined = b.defined ++ [name] := by
  rw [defined_store, if_neg h]

theorem subset_defined_store (b : Builder) (name : String) (s : Schema) :
    b.defined ⊆ (b.store name s).defined := by
  rw [defined_store]
  split
  · exact List.Subset.refl _
  · exact List.subset_append_left _ _

theorem mem_defined_store (b : Builder) (name : String) (s : Schema) :
    name ∈ (b.store name s).defined := by
  rw [defined_store]
  split
  · assumption
  · exact List.mem_append_right _ List.mem_cons_self

end Builder

structure Building where
  builder : Builder
  notices : List Notice := []

namespace Building

def store (s : Building) (name : String) (schema : Schema) : Building :=
  { s with builder := s.builder.store name schema }

@[simp] theorem builder_store (s : Building) (name : String) (schema : Schema) :
    (s.store name schema).builder = s.builder.store name schema := rfl

/-- The builders at work that have slots for certain classes. -/
abbrev Above (names : List String) : Type := { s : Building // names ⊆ s.builder.defined }

/-- A step of building. It may count on slots for certain classes and keeps them. -/
abbrev Step (names : List String) : Type → Type := StateM (Above names)

variable {names : List String}

def notice (n : Notice) : Step names Unit :=
  modify fun s => ⟨{ s.1 with notices := s.1.notices ++ [n] }, s.2⟩

def report (typeName : String) : Step names Unit := fun s =>
  if typeName ∈ s.1.builder.reported then ((), s)
  else
    let reported := s.1.builder.reported ++ [typeName]
    ((), ⟨⟨{ s.1.builder with reported }, s.1.notices ++ [.unresolvedType typeName]⟩, s.2⟩)

section Definitions
open Schema
variable (define : String → Step names Unit) (g : TypeGraph)

/-- The schema of a type name. A class that is referred to is defined as well. -/
def typeSchema (typeName : String) : Step names Schema :=
  match meaning g typeName with
  | .enumType e => return ofEnum e
  | .classType _ => do
    define typeName
    return reference typeName
  | .primitive name => return .ofList [("type", .str name)]
  | .unresolved => do
    report typeName
    return .ofList [("type", .str "string"), ("description", .str ("Type: " ++ typeName))]

def propertySchema (p : Property) : Step names Schema := do
  return propertyOf p (← typeSchema define g p.typeName)

def objectSchema (c : ClassType) : Step names Schema := do
  let shown ← (visibleProperties g c).mapM fun p => return (p, ← propertySchema define g p)
  return objectOf g c shown

def variantsSchema (c : ClassType) : Step names Schema := do
  if c.subclasses.isEmpty then notice (.noSubclasses c.name)
  let references ← (variants g c).mapM fun name => do
    define name
    return reference name
  return variantsOf references

def classSchema (c : ClassType) : Step names Schema :=
  if c.isSealed then variantsSchema define g c else objectSchema define g c

end Definitions

/-- Defines a class of the graph, with all that it refers to, unless it has a slot. -/
def define (g : TypeGraph) (name : String) (s : Building) : Above s.builder.defined :=
  match _hg : g.classes.get? name with
  | none => ⟨s, List.Subset.refl _⟩
  | some c =>
    if _hd : name ∈ s.builder.defined then ⟨s, List.Subset.refl _⟩
    else
      -- The slot is taken first and stays empty while the class is being defined.
      let reserved := s.store name .empty
      let inner : String → Step reserved.builder.defined Unit := fun n t =>
        ((), ⟨(define g n t.1).1, List.Subset.trans t.2 (define g n t.1).2⟩)
      let made := classSchema inner g c ⟨reserved, List.Subset.refl _⟩
      ⟨made.2.1.store name made.1,
        List.Subset.trans (Builder.subset_defined_store _ _ _) <|
          List.Subset.trans made.2.2 (Builder.subset_defined_store _ _ _)⟩
termination_by (unseen g.classes.keys s.builder.defined).length
decreasing_by
  all_goals
    exact length_unseen_lt (Table.mem_keys_of_get? _hg) _hd
      (fun _ hx => t.2 (Builder.subset_defined_store _ _ _ hx))
      (t.2 (Builder.mem_defined_store _ _ _))

def defineStep (g : TypeGraph) (name : String) : Step names Unit := fun s =>
  ((), ⟨(define g name s.1).1, List.Subset.trans s.2 (define g name s.1).2⟩)

end Building

structure RootNotFound where
  root : String
  deriving DecidableEq, Repr

def RootNotFound.message (e : RootNotFound) : String :=
  "Root type " ++ Text.quoted e.root ++ " not found"

namespace Builder
open Schema

/-- Takes a step from a builder: what it comes to, the builder after it and what was noticed. -/
def take {α : Type} (b : Builder) (step : Building.Step b.defined α) :
    α × Builder × List Notice :=
  let made := step ⟨⟨b, []⟩, List.Subset.refl _⟩
  (made.1, made.2.1.builder, made.2.1.notices)

def document (b : Builder) (root : String) : Json :=
  .obj [("$schema", .str dialect), ("$id", .str (root ++ ".json")),
    ("title", .str (root ++ " schema")), ("type", .str "object"),
    ("allOf", .arr [(reference root).toJson]),
    ("$defs", .obj (b.definitions.entries.map fun d => (d.1, d.2.toJson)))]

def build (g : TypeGraph) (b : Builder) (root : String) :
    Except RootNotFound (Builder × List Notice) :=
  if g.classes.contains root then .ok (b.take (Building.defineStep g root)).2
  else .error ⟨root⟩

inductive Request where
  | document (root : String)
  | definition (className : String)
  | property (p : Property)
  | type (typeName : String)
  | enum (e : EnumType)

/-- The builder after a request, the answer, and what was noticed. A definition is no answer: it
stays with the builder. -/
def answer (g : TypeGraph) (b : Builder) :
    Request → Builder × Except RootNotFound (Option Json) × List Notice
  | .document root =>
    match build g b root with
    | .ok (after, notices) => (after, .ok (some (after.document root)), notices)
    | .error e => (b, .error e, [])
  | .definition className =>
    let made := b.take (Building.defineStep g className)
    (made.2.1, .ok none, made.2.2)
  | .property p =>
    let made := b.take (Building.propertySchema (Building.defineStep g) g p)
    (made.2.1, .ok (some made.1.toJson), made.2.2)
  | .type typeName =>
    let made := b.take (Building.typeSchema (Building.defineStep g) g typeName)
    (made.2.1, .ok (some made.1.toJson), made.2.2)
  | .enum e => (b, .ok (some (ofEnum e).toJson), [])

def answerAll (g : TypeGraph) (b : Builder) (requests : List Request) : Builder :=
  requests.foldl (fun b r => (b.answer g r).1) b

end Builder

end KotlinSchema
