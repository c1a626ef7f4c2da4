/-! JSON documents. Numbers are integers; the members of an object are in order. -/

namespace KotlinSchema

inductive Json where
  | null
  | bool (b : Bool)
  | int (n : Int)
  | str (s : String)
  | arr (items : List Json)
  | obj (members : List (String × Json))
  deriving Repr

namespace Json

def field? (key : String) : Json → Option Json
  | obj members => (members.find? fun m => m.1 = key).map Prod.snd
  | _ => none

end Json

end KotlinSchema
