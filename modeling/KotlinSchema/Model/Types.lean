import KotlinSchema.Source.Annotation

/-! What a schema is made from: classes with properties, and enums with entries. -/

namespace KotlinSchema

/-- A property; the type name is that of its elements if it is a list or of its values if it is a
map. -/
structure Property where
  name : String
  typeName : String
  isNullable : Bool := false
  isList : Bool := false
  isMap : Bool := false
  doc : Option String := none
  defaultText : Option String := none
  annotations : List String := []
  deriving DecidableEq, Repr

namespace Property

def hasTag (p : Property) (name : String) : Bool :=
  p.annotations.any fun tag => Tag.name tag == name

def isHidden (p : Property) : Bool := p.hasTag Tag.hiddenName

def isModifierAware (p : Property) : Bool := p.hasTag Tag.modifierAwareName

def isRequired (p : Property) : Bool := !p.isNullable && p.defaultText.isNone

def tagValues (p : Property) (name : String) : List String :=
  (p.annotations.filter fun tag => Tag.name tag == name).flatMap Tag.values

def platforms (p : Property) : List String := p.tagValues Tag.platformName

def productTypes (p : Property) : List String := p.tagValues Tag.productTypeName

end Property

/-- A class. Its subclasses are known once the hierarchy has been resolved. -/
structure ClassType where
  name : String
  doc : Option String := none
  properties : List Property := []
  isSealed : Bool := false
  parent : Option String := none
  subclasses : List String := []
  deriving DecidableEq, Repr

structure EnumEntry where
  name : String
  schemaValue : String
  doc : Option String := none
  isOutdated : Bool := false
  deriving DecidableEq, Repr

structure EnumType where
  name : String
  doc : Option String := none
  entries : List EnumEntry := []
  isOrderSensitive : Bool := false
  deriving DecidableEq, Repr

def EnumType.active (e : EnumType) : List EnumEntry := e.entries.filter fun x => !x.isOutdated

inductive Descriptor where
  | ofClass (c : ClassType)
  | ofEnum (e : EnumType)
  deriving DecidableEq, Repr

end KotlinSchema
