import KotlinSchema.Source.Annotation
import KotlinSchema.Source.Block
import KotlinSchema.Source.TypeRef

/-! Delegated properties: `val` or `var`, a name, an optional type, and `by` with one of the value
delegates. -/

namespace KotlinSchema.Source
open Text

inductive Delegate where
  | value
  | nullableValue
  | nested
  | dependentValue
  deriving DecidableEq, Repr

def Delegate.ofName? (name : List Char) : Option Delegate :=
  if name = "value".toList then some .value
  else if name = "nullableValue".toList then some .nullableValue
  else if name = "nested".toList then some .nested
  else if name = "dependentValue".toList then some .dependentValue
  else none

/-- The delegation of a property, with the places of its keyword, of the delegate's name, of the
bracket that opens its type argument, if there is one, and of what follows. -/
structure Delegation where
  delegate : Delegate
  keywordAt : List Char
  calleeAt : List Char
  typeArgumentAt : Option (List Char)
  rest : List Char
  deriving DecidableEq, Repr

def delegation? (cs : List Char) : Option Delegation := do
  let keywordAt ← skipBlanks1? cs
  let calleeAt ← keyword? "by" keywordAt
  let (callee, cs) := takeWord calleeAt
  let delegate ← Delegate.ofName? callee
  match skipBlanks cs with
  | '<' :: rest => some ⟨delegate, keywordAt, calleeAt, some ('<' :: rest), rest⟩
  | rest => some ⟨delegate, keywordAt, calleeAt, none, rest⟩

/-- A declared type, which is as short as the delegation after it allows. It stays on its line and
holds no equals sign. -/
def declaredType? : List Char → Option (List Char × Delegation)
  | [] => none
  | c :: cs =>
    if c = '=' ∨ c = '\n' then none
    else match delegation? cs with
      | some d => some ([c], d)
      | none => (declaredType? cs).map fun (type, d) => (c :: type, d)

/-- A declared type after a colon. It begins after as many of the blanks there as possible. -/
def typeAfterColon? (cs : List Char) : Option (List Char × Delegation) :=
  let blanks := cs.length - (skipBlanks cs).length
  (List.range (blanks + 1)).reverse.findSome? fun k => declaredType? (cs.drop k)

structure PropertyText where
  annotations : List Char
  keywordAt : List Char
  nameAt : List Char
  name : List Char
  declared : Option (List Char)
  delegation : Delegation
  deriving DecidableEq, Repr

def canBeginName (before : Option Char) : Bool := before.all fun c => !isWord c && c != '.'

/-- The last character of the text between two places, else the character before it. -/
def charBefore (before : Option Char) (start stop : List Char) : Option Char :=
  (between start stop).getLast?.or before

def propertyText? (before : Option Char) (cs : List Char) :
    Option (PropertyText × List Char) := do
  let stop := (annotationRun cs).2
  if canBeginName (charBefore before cs stop) then
    let (_, keywordAt) := optionalKeyword ["override"] stop
    let nameAt ← (keyword? "val" keywordAt).or (keyword? "var" keywordAt)
    let (name, rest) ← takeWord1? nameAt
    let found := fun declared d => (⟨between cs stop, keywordAt, nameAt, name, declared, d⟩, d.rest)
    match skipBlanks rest with
    | ':' :: typeAt =>
      let (declared, d) ← typeAfterColon? typeAt
      return found (some declared) d
    | _ =>
      let d ← delegation? rest
      return found none d
  else none

/-- The declared type of a property and the place where the arguments of its delegate stand. A
type argument of the delegate wins over a type after the name. -/
def PropertyText.typeAndCall (p : PropertyText) : Option (List Char) × List Char :=
  match p.delegation.typeArgumentAt.bind typeArgument? with
  | some (type, rest) => (some type, rest)
  | none => (p.declared.map trim, p.delegation.rest)

def defaultText? (arguments : List Char) : Option (List Char) :=
  match trim arguments with
  | [] => none
  | text =>
    let value := do
      let rest ← after? "default".toList text
      let rest ← after? ['='] (skipBlanks rest)
      return skipBlanks rest
    some (value.getD text)

end KotlinSchema.Source
