import KotlinSchema.Text.Trim

/-! Paths, as what they start from and the names of the steps they take from there. Empty steps and
steps that stay in place are dropped; steps upwards are kept. -/

namespace KotlinSchema

/-- What a path starts from. Two leading slashes name the root as one does, but are kept. -/
inductive Anchor where
  | current
  | root
  | doubleRoot
  deriving DecidableEq, Repr

namespace Anchor

def text : Anchor → String
  | current => ""
  | root => "/"
  | doubleRoot => "//"

def ofText (text : String) : Anchor :=
  match text.toList with
  | '/' :: '/' :: '/' :: _ => root
  | '/' :: '/' :: _ => doubleRoot
  | '/' :: _ => root
  | _ => current

end Anchor

structure Path where
  parts : List String
  anchor : Anchor := .current
  deriving DecidableEq, Repr

namespace Path
open Text

def relative (parts : List String) : Path := ⟨parts, .current⟩

def isAbsolute (p : Path) : Bool := p.anchor != .current

def steps (text : String) : List String :=
  (pieces (· == '/') text.toList).map String.ofList

def ofString (text : String) : Path :=
  ⟨(steps text).filter fun part => part != "" && part != ".", Anchor.ofText text⟩

def toString (p : Path) : String :=
  if p = relative [] then "." else p.anchor.text ++ "/".intercalate p.parts

instance : ToString Path := ⟨toString⟩

def join (p : Path) (names : List String) : Path := { p with parts := p.parts ++ names }

/-- A path from where another one leads to. An absolute one takes the place of the other. -/
def append (p q : Path) : Path := if q.isAbsolute then q else p.join q.parts

instance : Append Path := ⟨append⟩

def parent (p : Path) : Path := { p with parts := p.parts.dropLast }

def name (p : Path) : String := p.parts.getLast?.getD ""

/-- The end of a name from its last dot on, unless that is its first or its last character. -/
def suffixOf (name : String) : String :=
  let stem := dropTrailing (· != '.') name.toList
  let extension := name.toList.drop stem.length
  if stem.length ≤ 1 || extension.isEmpty then "" else String.ofList ('.' :: extension)

def suffix (p : Path) : String := suffixOf p.name

/-- The parts of a path, before which stands the root it starts from. -/
def components (p : Path) : List String :=
  if p.isAbsolute then p.anchor.text :: p.parts else p.parts

/-- Whether a list of names comes first when they are compared one by one. -/
def precedes (names names' : List String) : Bool := names.lex names' fun a b => decide (a < b)

def isBefore (p q : Path) : Bool := precedes p.components q.components

@[simp] theorem parts_join (p : Path) (names : List String) :
    (p.join names).parts = p.parts ++ names := rfl

@[simp] theorem anchor_join (p : Path) (names : List String) :
    (p.join names).anchor = p.anchor := rfl

theorem components_join (p : Path) (names : List String) :
    (p.join names).components = p.components ++ names := by
  unfold components isAbsolute
  rw [anchor_join, parts_join]
  split <;> rfl

end Path

end KotlinSchema
