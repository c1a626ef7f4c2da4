import KotlinSchema.Text.Recogniser
import KotlinSchema.Text.Trim

/-! Type references: reading a type argument, and taking the nullability mark and the list or map
wrapper off a declared type. -/

namespace KotlinSchema.Source
open Text

def angleChange (c : Char) : Int := if c = '<' then 1 else if c = '>' then -1 else 0

/-- The place of the angle bracket that takes the depth to zero. A brace, a semicolon or an equals
sign before it ends the search. -/
def typeArgumentEnd? : Int → List Char → Option (List Char)
  | _, [] => none
  | depth, c :: cs =>
    let after := depth + angleChange c
    if c = '>' ∧ after = 0 then some (c :: cs)
    else if "{};=".toList.contains c then none
    else typeArgumentEnd? after cs

def typeArgument? (cs : List Char) : Option (List Char × List Char) :=
  (typeArgumentEnd? 0 cs).map fun close =>
    (trim ((cs.take (cs.length - close.length)).drop 1), close.drop 1)

/-- The stretches between the separators that stand outside of angle brackets. -/
def splitFrom (isSep : Char → Bool) : Int → List Char → List (List Char)
  | _, [] => [[]]
  | depth, c :: cs =>
    let after := depth + angleChange c
    if isSep c ∧ after = 0 then [] :: splitFrom isSep after cs
    else match splitFrom isSep after cs with
      | [] => [[c]]
      | w :: ws => (c :: w) :: ws

def splitTopLevel (isSep : Char → Bool) (cs : List Char) : List (List Char) :=
  (splitFrom isSep 0 cs).map trim

inductive Shape where
  | single
  | list
  | map
  deriving DecidableEq, Repr

structure TypeRef where
  typeName : List Char
  isNullable : Bool
  shape : Shape
  deriving DecidableEq, Repr

def defaultType : List Char := "String".toList

def unwrap? (wrapper : String) (type : List Char) : Option (List Char) :=
  (after? (wrapper.toList ++ ['<']) type).bind fun inner =>
    if inner.getLast? = some '>' then some (trim inner.dropLast) else none

def withoutMarks (type : List Char) : List Char := trim (dropTrailing (· == '?') type)

/-- The type on the inside of a wrapper; whether the element can be null is not kept. -/
def element (type : List Char) : List Char := withoutMarks (trim type)

/-- Reads a declared type. Of a map only the values count. -/
def parseTypeRef (declared : Option (List Char)) : TypeRef :=
  let type := match declared with
    | none | some [] => defaultType
    | some type => type
  let spaced := (words type).intersperse [' '] |>.flatten
  let isNullable := spaced.getLast? == some '?'
  let bare := withoutMarks spaced
  match unwrap? "List" bare with
  | some inner => ⟨element inner, isNullable, .list⟩
  | none =>
    match (unwrap? "Map" bare).map (splitTopLevel (· == ',')) with
    | some [_, value] => ⟨element value, isNullable, .map⟩
    | _ => ⟨bare, isNullable, .single⟩

end KotlinSchema.Source
