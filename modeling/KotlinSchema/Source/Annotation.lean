import KotlinSchema.Source.Literal
import KotlinSchema.Text.Recogniser
import KotlinSchema.Text.Trim
import KotlinSchema.Text.Word

/-! Annotations: an `@`, a name and, where one can be read, a parenthesised argument list. A tag is
the text of an annotation without the `@`. -/

namespace KotlinSchema.Source
open Text

/-- Inside the parentheses of a list, or inside parentheses within those. -/
inductive Nesting where
  | outer
  | inner
  deriving DecidableEq, Repr

/-- The place after a parenthesised list whose opening parenthesis has been read. Parentheses nest
once. `literals` says where a double quote opens a literal, which must be complete; elsewhere it is
plain text. -/
def groupEnd? (literals : Nesting → Bool) : Nesting → Bool → List Char → Option (List Char)
  | _, _, [] => none
  | nesting, true, '\\' :: c :: cs =>
    if c = '\n' then none else groupEnd? literals nesting true cs
  | nesting, true, c :: cs =>
    if c = '"' then groupEnd? literals nesting false cs
    else if c = '\n' ∨ c = '\\' then none
    else groupEnd? literals nesting true cs
  | .outer, false, c :: cs =>
    if c = '"' ∧ literals .outer then groupEnd? literals .outer true cs
    else if c = '(' then groupEnd? literals .inner false cs
    else if c = ')' then some cs
    else groupEnd? literals .outer false cs
  | .inner, false, c :: cs =>
    if c = '"' ∧ literals .inner then groupEnd? literals .inner true cs
    else if c = '(' then none
    else if c = ')' then groupEnd? literals .outer false cs
    else groupEnd? literals .inner false cs

def argumentListEnd? (cs : List Char) : Option (List Char) :=
  match skipBlanks cs with
  | '(' :: inner => groupEnd? (fun _ => true) .outer false inner
  | _ => none

def annotationEnd? : List Char → Option (List Char)
  | '@' :: cs =>
    (takeWord1? cs).map fun (_, rest) => (argumentListEnd? rest).getD rest
  | _ => none

theorem length_groupEnd?_lt {literals : Nesting → Bool} {nesting : Nesting} {inLiteral : Bool}
    {cs rest : List Char} (h : groupEnd? literals nesting inLiteral cs = some rest) :
    rest.length < cs.length := by
  fun_induction groupEnd? literals nesting inLiteral cs <;>
    simp_all only [List.length_cons, Option.some.injEq, reduceCtorEq, forall_const] <;> omega

theorem length_argumentListEnd?_lt {cs rest : List Char}
    (h : argumentListEnd? cs = some rest) : rest.length < cs.length := by
  unfold argumentListEnd? at h
  split at h
  · rename_i inner hi
    have hb := length_skipBlanks_le cs
    have hg := length_groupEnd?_lt h
    simp only [hi, List.length_cons] at hb
    omega
  · simp at h

theorem length_annotationEnd?_lt {cs rest : List Char} (h : annotationEnd? cs = some rest) :
    rest.length < cs.length := by
  unfold annotationEnd? at h
  split at h
  · obtain ⟨⟨w, more⟩, hw, rfl⟩ := Option.map_eq_some_iff.1 h
    have hmore := length_takeWord1?_lt hw
    cases ha : argumentListEnd? more with
    | none =>
      simp only [ha, Option.getD_none, List.length_cons]
      omega
    | some rest =>
      have hrest := length_argumentListEnd?_lt ha
      simp only [ha, Option.getD_some, List.length_cons]
      omega
  · simp at h

def annotationAndBlanksEnd? (cs : List Char) : Option (List Char) :=
  (annotationEnd? cs).map skipBlanks

theorem annotationAndBlanksEnd?_advances : Advances annotationAndBlanksEnd? := by
  intro cs rest h
  obtain ⟨more, hm, rfl⟩ := Option.map_eq_some_iff.1 h
  exact Nat.lt_of_le_of_lt (length_skipBlanks_le more) (length_annotationEnd?_lt hm)

/-- The annotations that stand in a row, as the places at which they begin, and the place after
them and the blanks that follow them. -/
def annotationRun (cs : List Char) : List (List Char) × List Char :=
  consecutive annotationAndBlanksEnd? annotationAndBlanksEnd?_advances cs

def tag? (cs : List Char) : Option (String × List Char) :=
  (annotationEnd? cs).map fun rest => (String.ofList ((between cs rest).drop 1), rest)

/-- The tags of all annotations in a text, in order, each once. -/
def parseAnnotations (text : List Char) : List String :=
  (findAll (fun _ => tag?) text).eraseDups

end KotlinSchema.Source

namespace KotlinSchema.Tag
open Text Source

def docName : String := "SchemaDoc"
def hiddenName : String := "HiddenFromCompletion"
def modifierAwareName : String := "ModifierAware"
def platformName : String := "PlatformSpecific"
def productTypeName : String := "ProductTypeSpecific"
def orderSensitiveName : String := "EnumOrderSensitive"

def name (tag : String) : String := String.ofList (trim (tag.toList.takeWhile (· != '(')))

def values (tag : String) : List String :=
  match tag.toList.dropWhile (· != '(') with
  | [] => []
  | _ :: inner =>
    if inner.contains ')' then
      let content := (dropTrailing (· != ')') inner).dropLast
      ((pieces (· == ',') content).map trim).filterMap fun v =>
        if v.isEmpty then none else some (String.ofList v)
    else []

def find? (tags : List String) (wanted : String) : Option String :=
  tags.find? fun tag => name tag == wanted

/-- The texts of a literal and of those joined to it with plus signs; none where no literal
stands. -/
def joinedTexts (cs : List Char) : List (List Char) :=
  match _h : literal? cs with
  | none => []
  | some (literal, rest) =>
    literalText literal :: match _hm : skipBlanks rest with
      | '+' :: more => joinedTexts (skipBlanks more)
      | _ => []
termination_by cs.length
decreasing_by
  have h₁ := length_literal? _h
  have h₂ := length_skipBlanks_le rest
  have h₃ := length_skipBlanks_le more
  simp only [_hm, List.length_cons] at h₂
  omega

def firstLiteral? : List Char → Option (List Char)
  | [] => none
  | c :: cs => if (literal? (c :: cs)).isSome then some (c :: cs) else firstLiteral? cs

/-- The documentation text of the first documentation tag: the literals joined to the first one of
its arguments. -/
def doc? (tags : List String) : Option String := do
  let tag ← find? tags docName
  let arguments := if tag.toList.contains '(' then (tag.toList.dropWhile (· != '(')).drop 1
    else tag.toList
  let start ← firstLiteral? arguments
  return String.ofList (joinedTexts start).flatten

end KotlinSchema.Tag
