import KotlinSchema.Extraction

/-! Declarations as they are written, and their text. A text is printed with its literals shown in
one way or another: they stand in the text itself and are blank where headers are searched. Where
the layout is free, what is written says which blanks it has. -/

namespace KotlinSchema.Canonical
open Text Source

/-- A name in ASCII letters, digits and underscores. -/
structure Identifier where
  chars : List Char
  ne_nil : chars ≠ []
  head_isAlpha : ∀ c ∈ chars.head?, c.isAlpha = true ∨ c = '_'
  isAlphanum : ∀ c ∈ chars, c.isAlphanum = true ∨ c = '_'

namespace Identifier

def string (i : Identifier) : String := String.ofList i.chars

def accepts (cs : List Char) : Bool :=
  cs.head?.any (fun c => c.isAlpha || c == '_') && cs.all fun c => c.isAlphanum || c == '_'

def of (s : String) (h : accepts s.toList = true) : Identifier where
  chars := s.toList
  ne_nil hnil := by simp [accepts, hnil] at h
  head_isAlpha c hc := by
    rw [accepts, Bool.and_eq_true, Option.mem_def.1 hc] at h
    simpa using h.1
  isAlphanum c hc := by
    rw [accepts, Bool.and_eq_true] at h
    simpa using List.all_eq_true.1 h.2 c hc

end Identifier

/-- The blanks between two words, lines or members: one at least. -/
structure Gap where
  chars : List Char
  ne_nil : chars ≠ []
  isBlank : ∀ c ∈ chars, Text.isBlank c = true

def Gap.newline : Gap where
  chars := ['\n']
  ne_nil := by simp
  isBlank := List.forall_mem_singleton.2 rfl

/-- What stands between two entries of an enum. -/
structure Separator where
  chars : List Char
  isBlank : ∀ c ∈ chars, Text.isBlank c = true ∨ c = ','

def Separator.comma : Separator where
  chars := [',', '\n']
  isBlank := List.forall_mem_cons.2 ⟨.inr rfl, List.forall_mem_singleton.2 (.inl rfl)⟩

/-- A literal's content spells a text: a character for itself, or one that a backslash takes. -/
inductive Spells : List Char → List Char → Prop where
  | nil : Spells [] []
  | plain {c : Char} {content value : List Char} :
    c ≠ '"' → c ≠ '\\' → c ≠ '\n' → Spells content value → Spells (c :: content) (c :: value)
  | escaped {c : Char} {content value : List Char} :
    c ≠ '\n' → Spells content value → Spells ('\\' :: c :: content) (escape c :: value)

structure Literal where
  content : List Char
  value : List Char
  spells : Spells content value

namespace Literal

def text (l : Literal) : List Char := ['"'] ++ l.content ++ ['"']

def blanked (l : Literal) : List Char := List.replicate (l.content.length + 2) ' '

def string (l : Literal) : String := String.ofList l.value

def spelling : List Char → List Char
  | [] => []
  | c :: cs =>
    if c = '\n' then '\\' :: 'n' :: spelling cs
    else if c = '"' ∨ c = '\\' then '\\' :: c :: spelling cs
    else c :: spelling cs

theorem spells_spelling (cs : List Char) : Spells (spelling cs) cs := by
  induction cs with
  | nil => exact .nil
  | cons c cs ih =>
    rw [spelling]
    split
    · rename_i hline
      subst hline
      exact .escaped (by decide) ih
    · rename_i hline
      split
      · rename_i hc
        rcases hc with rfl | rfl
        · exact .escaped (by decide) ih
        · exact .escaped (by decide) ih
      · rename_i hc
        exact .plain (fun h => hc (.inl h)) (fun h => hc (.inr h)) hline ih

def of (s : String) : Literal := ⟨spelling s.toList, s.toList, spells_spelling s.toList⟩

theorem string_of (s : String) : (of s).string = s := String.ofList_toList

end Literal

/-- An annotation: a bare name, or the documentation. -/
inductive Tag where
  | bare (name : Identifier) (h : name.chars ≠ Tag.docName.toList)
  | doc (text : Literal)

namespace Tag

def print (f : Literal → List Char) : Tag → List Char
  | bare name _ => name.chars
  | doc l => "SchemaDoc(".toList ++ f l ++ [')']

def doc? : Tag → Option String
  | bare .. => none
  | doc l => some l.string

end Tag

structure TagLine where
  tag : Tag
  gap : Gap := .newline

def TagLine.print (f : Literal → List Char) (t : TagLine) : List Char :=
  ['@'] ++ t.tag.print f ++ t.gap.chars

theorem doc_regroup {a b x g : List Char} (h : a = b ++ ['(']) :
    ['@'] ++ (a ++ x ++ [')']) ++ g = ['@'] ++ ((b ++ ['(']) ++ (x ++ ([')'] ++ g))) := by
  simp only [h, List.append_assoc]

theorem print_doc (f : Literal → List Char) (l : Literal) (g : Gap) :
    TagLine.print f ⟨.doc l, g⟩ =
      ['@'] ++ (("SchemaDoc".toList ++ ['(']) ++ (f l ++ ([')'] ++ g.chars))) :=
  doc_regroup rfl

def printTags (f : Literal → List Char) (ts : List TagLine) : List Char := ts.flatMap (·.print f)

def docTags (doc : Option Literal) (gap : Gap) : List TagLine :=
  doc.toList.map fun l => ⟨.doc l, gap⟩

/-- The type of a value or of the elements of a collection. -/
inductive Element where
  | plain (name : Identifier)
  | traceable (name : Identifier)

def Element.chars : Element → List Char
  | plain name => name.chars
  | traceable name => "TraceableEnum<".toList ++ name.chars ++ ['>']

structure TypeExpr where
  shape : Shape
  element : Element
  isNullable : Bool

namespace TypeExpr

def core (t : TypeExpr) : List Char :=
  match t.shape with
  | .single => t.element.chars
  | .list => "List<".toList ++ t.element.chars ++ ['>']
  | .map => "Map<String,".toList ++ [' '] ++ t.element.chars ++ ['>']

def mark (t : TypeExpr) : List Char := if t.isNullable then ['?'] else []

def chars (t : TypeExpr) : List Char := t.core ++ t.mark

end TypeExpr

def isDefaultChar (c : Char) : Bool := isWord c || c == '.' || c == ',' || c == ':'

/-- A text of words, dots, commas, colons and parentheses that balance. -/
inductive Balanced : List Char → Prop where
  | nil : Balanced []
  | cons {c : Char} {cs : List Char} : isDefaultChar c = true → Balanced cs → Balanced (c :: cs)
  | group {inner cs : List Char} :
    Balanced inner → Balanced cs → Balanced (['('] ++ inner ++ [')'] ++ cs)

theorem Balanced.append {cs ds : List Char} (hcs : ∀ c ∈ cs, isDefaultChar c = true)
    (hds : Balanced ds) : Balanced (cs ++ ds) := by
  induction cs with
  | nil => exact hds
  | cons c cs ih =>
    obtain ⟨hc, hcs⟩ := List.forall_mem_cons.1 hcs
    exact .cons hc (ih hcs)

structure Default where
  chars : List Char
  ne_nil : chars ≠ []
  balanced : Balanced chars

structure Property where
  tags : List TagLine
  nodup_tags : (tags.map (·.tag.print Literal.text)).Nodup
  name : Identifier
  type : TypeExpr
  default? : Option Default
  gap : Gap := .newline

namespace Property

def arguments (p : Property) : List Char :=
  match p.default? with
  | none => []
  | some d => "default = ".toList ++ d.chars

def tail (p : Property) : List Char :=
  p.type.chars ++ ">(".toList ++ p.arguments ++ [')'] ++ p.gap.chars

def line (p : Property) : List Char :=
  "val ".toList ++ p.name.chars ++ " by value<".toList ++ p.tail

theorem line_regroup {a v n s b w t : List Char} (ha : a = v ++ [' '])
    (hs : s = [' '] ++ (b ++ [' ']) ++ w) :
    a ++ n ++ s ++ t = (v ++ [' ']) ++ ((n ++ [' ']) ++ ((b ++ [' ']) ++ (w ++ t))) := by
  simp only [ha, hs, List.append_assoc]

theorem line_words (p : Property) :
    p.line = ("val".toList ++ [' ']) ++ ((p.name.chars ++ [' ']) ++
      (("by".toList ++ [' ']) ++ (("value".toList ++ ['<']) ++ p.tail))) :=
  line_regroup rfl rfl

def print (f : Literal → List Char) (p : Property) : List Char := printTags f p.tags ++ p.line

def described (p : Property) : KotlinSchema.Property where
  name := p.name.string
  typeName := String.ofList p.type.element.chars
  isNullable := p.type.isNullable
  isList := p.type.shape == .list
  isMap := p.type.shape == .map
  doc := p.tags.findSome? (·.tag.doc?)
  defaultText := p.default?.map fun d => String.ofList d.chars
  annotations := p.tags.map fun t => String.ofList (t.tag.print Literal.text)

end Property

structure Class where
  doc : Option Literal
  docGap : Gap := .newline
  isSealed : Bool
  name : Identifier
  supertype : Identifier
  isSchema : isSchemaClass name.string (some supertype.string) = true
  openGap : Gap := .newline
  properties : List Property
  nodup_names : (properties.map (·.name.chars)).Nodup
  closeGap : Gap := .newline

namespace Class

def heading (c : Class) : List Char :=
  (if c.isSealed then "sealed ".toList else []) ++ "class ".toList ++ c.name.chars ++
    " : ".toList ++ c.supertype.chars ++ "() ".toList

theorem heading_regroup {m m' a k n s t u : List Char} {b : Bool} (hm : m = m' ++ [' '])
    (ha : a = k ++ [' ']) (hs : s = [' '] ++ ([':'] ++ [' '])) (hu : u = ['('] ++ ([')'] ++ [' '])) :
    (if b then m else []) ++ a ++ n ++ s ++ t ++ u = (if b then m' ++ [' '] else []) ++
      ((k ++ [' ']) ++ ((n ++ [' ']) ++ (([':'] ++ [' ']) ++ ((t ++ ['(']) ++
        ([')'] ++ [' ']))))) := by
  simp only [hm, ha, hs, hu, List.append_assoc]

theorem heading_words (c : Class) :
    c.heading = (if c.isSealed then "sealed".toList ++ [' '] else []) ++
      (("class".toList ++ [' ']) ++ ((c.name.chars ++ [' ']) ++ (([':'] ++ [' ']) ++
        ((c.supertype.chars ++ ['(']) ++ ([')'] ++ [' ']))))) :=
  heading_regroup rfl rfl rfl rfl

def body (f : Literal → List Char) (c : Class) : List Char :=
  c.openGap.chars ++ c.properties.flatMap (·.print f)

def described (c : Class) : ClassType where
  name := c.name.string
  doc := c.doc.map (·.string)
  properties := c.properties.map (·.described)
  isSealed := c.isSealed
  parent := if c.supertype.string = rootSupertype then none else some c.supertype.string

end Class

structure Entry where
  doc : Option Literal
  docGap : Gap := .newline
  name : Identifier
  value : Literal
  isOutdated : Bool
  separator : Separator

namespace Entry

def flag (e : Entry) : List Char := if e.isOutdated then ", outdated = true".toList else []

def call (f : Literal → List Char) (e : Entry) : List Char :=
  e.name.chars ++ ['('] ++ f e.value ++ e.flag ++ [')'] ++ e.separator.chars

def print (f : Literal → List Char) (e : Entry) : List Char :=
  printTags f (docTags e.doc e.docGap) ++ e.call f

def described (e : Entry) : EnumEntry where
  name := e.name.string
  schemaValue := e.value.string
  doc := e.doc.map (·.string)
  isOutdated := e.isOutdated

end Entry

structure Enum where
  doc : Option Literal
  docGap : Gap := .newline
  name : Identifier
  openGap : Gap := .newline
  entries : List Entry
  /-- The blanks after the semicolon that ends the entries, if one does. -/
  terminator : Option Gap := none
  closeGap : Gap := .newline

namespace Enum

def heading (e : Enum) : List Char :=
  "enum class ".toList ++ e.name.chars ++ "(val schemaValue: String) : SchemaEnum ".toList

theorem heading_regroup {a n s w k p q t u : List Char} (ha : a = (w ++ [' ']) ++ (k ++ [' ']))
    (hs : s = ['('] ++ (p ++ [' ']) ++ (q ++ [':']) ++ [' '] ++ (t ++ [')']) ++ [' '] ++ [':'] ++
      [' '] ++ (u ++ [' '])) :
    a ++ n ++ s = (w ++ [' ']) ++ ((k ++ [' ']) ++ ((n ++ ['(']) ++ ((p ++ [' ']) ++
      ((q ++ [':']) ++ ([' '] ++ ((t ++ [')']) ++ ([' '] ++ ([':'] ++ ([' '] ++
        (u ++ [' ']))))))))))  := by
  simp only [ha, hs, List.append_assoc]

theorem heading_words (e : Enum) :
    e.heading = ("enum".toList ++ [' ']) ++ (("class".toList ++ [' ']) ++
      ((e.name.chars ++ ['(']) ++ (("val".toList ++ [' ']) ++ (("schemaValue".toList ++ [':']) ++
        ([' '] ++ (("String".toList ++ [')']) ++ ([' '] ++ ([':'] ++ ([' '] ++
          ("SchemaEnum".toList ++ [' '])))))))))) :=
  heading_regroup rfl rfl

def entryPart (f : Literal → List Char) (e : Enum) : List Char :=
  e.openGap.chars ++ e.entries.flatMap (·.print f)

def ending (e : Enum) : List Char :=
  match e.terminator with
  | none => []
  | some gap => [';'] ++ gap.chars

def body (f : Literal → List Char) (e : Enum) : List Char := e.entryPart f ++ e.ending

def described (e : Enum) : EnumType where
  name := e.name.string
  doc := e.doc.map (·.string)
  entries := e.entries.map (·.described)

end Enum

inductive Declaration where
  | ofClass (c : Class)
  | ofEnum (e : Enum)

namespace Declaration

def name : Declaration → String
  | ofClass c => c.name.string
  | ofEnum e => e.name.string

def tags : Declaration → List TagLine
  | ofClass c => docTags c.doc c.docGap
  | ofEnum e => docTags e.doc e.docGap

def heading : Declaration → List Char
  | ofClass c => c.heading
  | ofEnum e => e.heading

def body (f : Literal → List Char) : Declaration → List Char
  | ofClass c => c.body f
  | ofEnum e => e.body f

def closeGap : Declaration → Gap
  | ofClass c => c.closeGap
  | ofEnum e => e.closeGap

def tail (f : Literal → List Char) (d : Declaration) : List Char :=
  d.body f ++ ['}'] ++ d.closeGap.chars

def print (f : Literal → List Char) (d : Declaration) : List Char :=
  printTags f d.tags ++ d.heading ++ ['{'] ++ d.tail f

def described : Declaration → Descriptor
  | ofClass c => .ofClass c.described
  | ofEnum e => .ofEnum e.described

end Declaration

def printAll (f : Literal → List Char) (ds : List Declaration) : List Char :=
  ds.flatMap (·.print f)

def text (ds : List Declaration) : List Char := printAll Literal.text ds

end KotlinSchema.Canonical
