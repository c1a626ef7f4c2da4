import KotlinSchema.Text.Recogniser
import KotlinSchema.Text.Trim

/-! Titles made of documentation texts. -/

namespace KotlinSchema.Schema
open Text

/-- The place after a link target in parentheses. -/
def targetEnd? : List Char → Option (List Char)
  | '(' :: inner =>
    match inner.dropWhile (· != ')') with
    | _ :: rest => some rest
    | [] => none
  | _ => none

/-- The place after a link to further documentation, with its target if it has one. -/
def linkEnd? (cs : List Char) : Option (List Char) :=
  (after? "[Read more]".toList cs).map fun rest => (targetEnd? rest).getD rest

/-- A documentation text without links, parentheses, blanks around it and the periods after it. -/
def shortTitle (doc : String) : String :=
  let text := (removeAll linkEnd? doc.toList).filter fun c => c != '(' && c != ')'
  String.ofList (dropTrailing (· == '.') (trim text))

end KotlinSchema.Schema
