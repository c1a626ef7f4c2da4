import KotlinSchema.Source.Header
import KotlinSchema.Source.Region
import KotlinSchema.Text.Lines

/-! The declarations of a source text, in the order of their bodies. -/

namespace KotlinSchema.Source
open Text

/-- A declaration found by its header. The offset is that of the brace that opens its body. -/
structure Declaration where
  kind : DeclarationKind
  name : String
  bodyOffset : Nat
  line : Nat
  annotations : List String := []
  modifier : Option Modifier := none
  supertype : Option String := none
  origin : Option String := none
  deriving DecidableEq, Repr

def offsetOf (text place : List Char) : Nat := text.length - place.length

/-- The declaration of a header in `code`. Its tags are read at the same offsets of `tagText`, the
same text with its literals. -/
def declarationOf (code tagText : List Char) (origin : Option String) (found : AnnotatedHeader) :
    Declaration where
  kind := found.header.kind
  name := String.ofList found.header.name
  bodyOffset := offsetOf code found.header.braceAt
  line := lineAt tagText (offsetOf code found.header.nameAt)
  annotations := parseAnnotations
    ((tagText.take (offsetOf code found.stop)).drop (offsetOf code found.start))
  modifier := found.header.modifier
  supertype := some (String.ofList found.header.supertype)
  origin := origin

/-- All enum and class declarations of a text, at any depth, by the offsets of their bodies. -/
def scan (source : List Char) (origin : Option String) : List Declaration :=
  let code := mask false source
  let tagText := mask true source
  let find := fun header? =>
    (findAll (fun _ => annotatedHeader? header?) code).map (declarationOf code tagText origin)
  (find enumHeader? ++ find classHeader?).mergeSort fun a b => a.bodyOffset ≤ b.bodyOffset

end KotlinSchema.Source
