import KotlinSchema.Source.Annotation

/-! Declaration headers. A header is read from masked text, where literals and comments are blank,
from its annotations to the brace that opens its body. -/

namespace KotlinSchema.Source
open Text

inductive DeclarationKind where
  | classLike
  | enumLike
  deriving DecidableEq, Repr

inductive Modifier where
  | sealed
  | abstract
  deriving DecidableEq, Repr

/-- A header without its annotations. The places are those of the name, of the brace and of the
text after the brace. -/
structure Header where
  kind : DeclarationKind
  name : List Char
  modifier : Option Modifier
  supertype : List Char
  nameAt : List Char
  braceAt : List Char
  rest : List Char
  deriving DecidableEq, Repr

def visibilities : List String := ["public", "internal"]

def enumSupertype : String := "SchemaEnum"

def parametersEnd? : List Char → Option (List Char)
  | '(' :: inner => groupEnd? (fun _ => false) .outer false inner
  | _ => none

def emptyCallEnd? (cs : List Char) : Option (List Char) :=
  match cs with
  | '(' :: inner => after? [')'] (skipBlanks inner)
  | _ => none

theorem length_emptyCallEnd?_le {cs rest : List Char} (h : emptyCallEnd? cs = some rest) :
    rest.length ≤ cs.length := by
  unfold emptyCallEnd? at h
  split at h
  · rename_i inner
    have h₁ := length_after?_le h
    have h₂ := length_skipBlanks_le inner
    simp only [List.length_cons]
    omega
  · simp at h

def isTypeChar (c : Char) : Bool := isWord c || c == '.' || c == '<' || c == '>'

def interfaceEnd? (cs : List Char) : Option (List Char) := do
  let cs ← after? [','] (skipBlanks cs)
  let rest := (skipBlanks cs).dropWhile isTypeChar
  if rest.length = (skipBlanks cs).length then none else some ((emptyCallEnd? rest).getD rest)

theorem interfaceEnd?_advances : Advances interfaceEnd? := by
  intro cs rest h
  simp only [interfaceEnd?, Option.bind_eq_bind, Option.bind_eq_some_iff] at h
  obtain ⟨more, hm, h⟩ := h
  have h₁ := length_skipBlanks_le cs
  have h₂ : (skipBlanks cs).length = more.length + 1 := by simp [after?_eq_some hm]
  have h₃ := length_skipBlanks_le more
  have h₄ := ((skipBlanks more).dropWhile_sublist isTypeChar).length_le
  split at h
  · simp at h
  · obtain rfl := Option.some.inj h
    cases he : emptyCallEnd? ((skipBlanks more).dropWhile isTypeChar) with
    | none =>
      simp only [Option.getD_none]
      omega
    | some rest =>
      have h₅ := length_emptyCallEnd?_le he
      simp only [Option.getD_some]
      omega

def openingBrace? (cs : List Char) : Option (List Char × List Char) :=
  match skipBlanks cs with
  | '{' :: rest => some ('{' :: rest, rest)
  | _ => none

def startsWithWord (cs : List Char) : Bool := cs.head?.any isWord

def enumHeader? (cs : List Char) : Option Header := do
  let nameAt ← (keyword? "enum" (optionalKeyword visibilities cs).2).bind (keyword? "class")
  let (name, cs) ← takeWord1? nameAt
  let cs := skipBlanks cs
  let cs ← after? [':'] (skipBlanks ((parametersEnd? cs).getD cs))
  let cs ← after? enumSupertype.toList (skipBlanks cs)
  if startsWithWord cs then none
  else
    let (braceAt, rest) ← openingBrace? (consecutive interfaceEnd? interfaceEnd?_advances cs).2
    return ⟨.enumLike, name, none, enumSupertype.toList, nameAt, braceAt, rest⟩

/-- A class whose only supertype is called without arguments. -/
def classHeader? (cs : List Char) : Option Header := do
  let (modifier, cs) := optionalKeyword ["sealed", "abstract"] (optionalKeyword visibilities cs).2
  let modifier := modifier.map fun m => if m == "sealed" then Modifier.sealed else .abstract
  let nameAt ← keyword? "class" cs
  let (name, cs) ← takeWord1? nameAt
  let cs := skipBlanks cs
  let cs ← after? [':'] (skipBlanks ((emptyCallEnd? cs).getD cs))
  let (supertype, cs) ← takeWord1? (skipBlanks cs)
  let cs ← emptyCallEnd? (skipBlanks cs)
  let (braceAt, rest) ← openingBrace? cs
  return ⟨.classLike, name, modifier, supertype, nameAt, braceAt, rest⟩

/-- The places inside the name of an annotation, last first, where its name may stop to leave
letters to what follows. -/
def nameStops : List Char → List (List Char)
  | '@' :: cs =>
    (List.range ((takeWord cs).1.length - 1)).reverse.map fun k => cs.drop (k + 1)
  | _ => []

/-- The places where the annotations at the start of a text may stop, in the order of preference:
after them all, else inside the name of one, from the last to the first. -/
def annotationStops (cs : List Char) : List (List Char) :=
  (annotationRun cs).2 :: (annotationRun cs).1.reverse.flatMap nameStops

structure AnnotatedHeader where
  start : List Char
  stop : List Char
  header : Header
  deriving DecidableEq, Repr

def annotatedHeader? (header? : List Char → Option Header) (cs : List Char) :
    Option (AnnotatedHeader × List Char) :=
  (annotationStops cs).findSome? fun stop =>
    (header? stop).map fun h => (⟨cs, stop, h⟩, h.rest)

end KotlinSchema.Source
