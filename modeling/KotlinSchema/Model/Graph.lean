import KotlinSchema.Model.Table
import KotlinSchema.Model.Types
import KotlinSchema.Notice

/-! The type graph: all classes and enums, each under its own name. A later declaration of a name
replaces the earlier one and keeps its position. -/

namespace KotlinSchema

structure TypeGraph where
  classes : Table String ClassType
  enums : Table String EnumType
  classes_named : classes.IsNamed ClassType.name
  enums_named : enums.IsNamed EnumType.name
  deriving DecidableEq

namespace TypeGraph

def empty : TypeGraph := ⟨.empty, .empty, Table.isNamed_empty _, Table.isNamed_empty _⟩

def addClass (g : TypeGraph) (c : ClassType) : TypeGraph :=
  { g with
    classes := g.classes.insert c.name c
    classes_named := g.classes_named.insert c }

def addEnum (g : TypeGraph) (e : EnumType) : TypeGraph :=
  { g with
    enums := g.enums.insert e.name e
    enums_named := g.enums_named.insert e }

def add (g : TypeGraph) : Descriptor → TypeGraph
  | .ofClass c => g.addClass c
  | .ofEnum e => g.addEnum e

def addAll (g : TypeGraph) (ds : List Descriptor) : TypeGraph := ds.foldl add g

def redeclaration? (g : TypeGraph) : Descriptor → Option Notice
  | .ofClass c => if g.classes.contains c.name then some (.classRedeclared c.name) else none
  | .ofEnum e => if g.enums.contains e.name then some (.enumRedeclared e.name) else none

def declare (d : Descriptor) : StateM TypeGraph (List Notice) :=
  modifyGet fun g => ((g.redeclaration? d).toList, g.add d)

def declareAll : List Descriptor → StateM TypeGraph (List Notice)
  | [] => return []
  | d :: ds => return (← declare d) ++ (← declareAll ds)

def sealedClasses (g : TypeGraph) : List ClassType := g.classes.values.filter (·.isSealed)

def childrenOf (g : TypeGraph) (parent : String) : List String :=
  (g.classes.entries.filter fun p => p.2.parent = some parent).map Prod.fst

/-- A class as it is after resolution, given the direct subclasses of each name. -/
def resolved (children : String → List String) (name : String) (c : ClassType) : ClassType :=
  if c.isSealed then { c with subclasses := children name } else c

@[simp] theorem name_resolved (children : String → List String) (name : String) (c : ClassType) :
    (resolved children name c).name = c.name := by
  rw [resolved]
  split <;> rfl

def resolve (g : TypeGraph) : TypeGraph :=
  { g with
    classes := g.classes.mapValues (resolved g.childrenOf)
    classes_named := g.classes_named.mapValues fun name c => name_resolved _ name c }

@[simp] theorem keys_resolve (g : TypeGraph) : g.resolve.classes.keys = g.classes.keys := by
  simp [resolve]

@[simp] theorem enums_resolve (g : TypeGraph) : g.resolve.enums = g.enums := rfl

theorem addAll_append (g : TypeGraph) (ds es : List Descriptor) :
    g.addAll (ds ++ es) = (g.addAll ds).addAll es := by
  simp [addAll]

end TypeGraph

end KotlinSchema
