import KotlinSchema.Proofs.Canonical.Members

/-! How the headers of written declarations are read, and where no header is. -/

namespace KotlinSchema.Canonical
open Text Source

section Enums
variable (e : Enum)

theorem enum_eq {a w k n s p t rest : List Char} (ha : a = w ++ ' ' :: (k ++ [' ']))
    (hs : s = '(' :: (p ++ ')' :: ' ' :: ':' :: ' ' :: (t ++ [' ']))) :
    a ++ n ++ s ++ rest =
      w ++ ' ' :: (k ++ ' ' :: (n ++ '(' :: (p ++ ')' :: ' ' :: ':' :: ' ' :: (t ++ ' ' :: rest)))) := by
  subst ha hs
  simp

def afterEnumName (rest : List Char) : List Char :=
  '(' :: ("val schemaValue: String".toList ++ ')' :: ' ' :: ':' :: ' ' ::
    (enumSupertype.toList ++ ' ' :: rest))

def enumNameAt (rest : List Char) : List Char := e.name.chars ++ afterEnumName rest

theorem enum_heading_eq (rest : List Char) :
    e.heading ++ rest = "enum".toList ++ ' ' :: ("class".toList ++ ' ' :: enumNameAt e rest) :=
  enum_eq rfl rfl

def enumHeader (rest : List Char) : Header where
  kind := .enumLike
  name := e.name.chars
  modifier := none
  supertype := enumSupertype.toList
  nameAt := enumNameAt e ('{' :: rest)
  braceAt := '{' :: rest
  rest := rest

theorem head?_append_of_head? {a : List Char} {x : Char} (h : a.head? = some x) (b : List Char) :
    (a ++ b).head? = some x := by
  rw [List.head?_append, h, Option.some_or]

theorem skipBlanks_space (rest : List Char) : skipBlanks (' ' :: rest) = skipBlanks rest :=
  skipBlanks_append (List.forall_mem_singleton.2 rfl : ∀ c ∈ [' '], isBlank c = true) rest

theorem optionalKeyword_visibilities {cs : List Char} {x : Char} (hcs : cs.head? = some x)
    (hx : x ≠ 'p' ∧ x ≠ 'i') : optionalKeyword visibilities cs = (none, cs) := by
  refine optionalKeyword_eq_none fun w hw => ?_
  rcases List.mem_pair.1 hw with rfl | rfl
  · exact keyword?_eq_none (x := 'p') rfl hcs (Ne.symm hx.1)
  · exact keyword?_eq_none (x := 'i') rfl hcs (Ne.symm hx.2)

theorem parametersEnd?_enum (rest : List Char) :
    parametersEnd? (afterEnumName rest) = some (' ' :: ':' :: ' ' ::
      (enumSupertype.toList ++ ' ' :: rest)) := by
  have hchars : ∀ c ∈ "val schemaValue: String".toList, isArgumentChar c = true :=
    List.all_eq_true.1 rfl
  rw [afterEnumName, parametersEnd?, groupEnd?_of_isArgumentChar hchars]
  simp [groupEnd?]

theorem openingBrace?_space (rest : List Char) :
    openingBrace? (' ' :: '{' :: rest) = some ('{' :: rest, rest) := by
  have hskip : skipBlanks (' ' :: '{' :: rest) = '{' :: rest := by
    rw [skipBlanks_space, skipBlanks_cons (by rfl)]
  simp only [openingBrace?, hskip]

theorem enumHeader?_heading (rest : List Char) :
    enumHeader? (e.heading ++ '{' :: rest) = some (enumHeader e rest) := by
  have hvisibility : optionalKeyword visibilities ("enum".toList ++ ' ' :: ("class".toList ++ ' ' ::
      enumNameAt e ('{' :: rest))) = (none, "enum".toList ++ ' ' :: ("class".toList ++ ' ' ::
        enumNameAt e ('{' :: rest))) :=
    optionalKeyword_visibilities (head?_append_of_head? (x := 'e') rfl _)
      (by decide)
  have henum : keyword? "enum" ("enum".toList ++ ' ' :: ("class".toList ++ ' ' ::
      enumNameAt e ('{' :: rest))) = some ("class".toList ++ ' ' :: enumNameAt e ('{' :: rest)) :=
    keyword?_append (head?_append_of_solid (solid_of_all rfl)
      (by decide) _)
  have hclass : keyword? "class" ("class".toList ++ ' ' :: enumNameAt e ('{' :: rest)) =
      some (enumNameAt e ('{' :: rest)) :=
    keyword?_append (head?_append_of_solid (solid_identifier e.name) e.name.ne_nil _)
  have hname : takeWord1? (enumNameAt e ('{' :: rest)) =
      some (e.name.chars, afterEnumName ('{' :: rest)) := by
    refine takeWord1?_of_append e.name.ne_nil e.name.isWord ?_
    rintro c ⟨⟩
    rfl
  have hskip : skipBlanks (afterEnumName ('{' :: rest)) = afterEnumName ('{' :: rest) :=
    skipBlanks_cons (by rfl) _
  have hcolon : after? [':'] (skipBlanks (' ' :: ':' :: ' ' ::
      (enumSupertype.toList ++ ' ' :: '{' :: rest))) =
        some (' ' :: (enumSupertype.toList ++ ' ' :: '{' :: rest)) := rfl
  have hsupertype : after? enumSupertype.toList (skipBlanks
      (' ' :: (enumSupertype.toList ++ ' ' :: '{' :: rest))) = some (' ' :: '{' :: rest) := by
    rw [skipBlanks_space, skipBlanks_eq_self (head?_append_of_solid
      (solid_of_all rfl) (by decide) _), after?_append]
  have hinterfaces : consecutive interfaceEnd? interfaceEnd?_advances (' ' :: '{' :: rest) =
      ([], ' ' :: '{' :: rest) := consecutive_of_none _ rfl
  rw [enum_heading_eq]
  simp only [enumHeader?, hvisibility, henum, hclass, hname, hskip, parametersEnd?_enum,
    Option.getD_some, hcolon, hsupertype, hinterfaces, openingBrace?_space, Option.bind_eq_bind,
    Option.bind_some]
  rfl

end Enums

section Classes
variable (c : Class)

theorem class_eq {m a n s t u k rest : List Char} (ha : a = k ++ [' ']) (hs : s = [' ', ':', ' '])
    (hu : u = ['(', ')', ' ']) :
    m ++ a ++ n ++ s ++ t ++ u ++ rest =
      m ++ (k ++ ' ' :: (n ++ ' ' :: ':' :: ' ' :: (t ++ '(' :: ')' :: ' ' :: rest))) := by
  subst ha hs hu
  simp

def afterClassName (rest : List Char) : List Char :=
  ' ' :: ':' :: ' ' :: (c.supertype.chars ++ '(' :: ')' :: ' ' :: rest)

def classNameAt (rest : List Char) : List Char := c.name.chars ++ afterClassName c rest

def classKeywordAt (rest : List Char) : List Char := "class".toList ++ ' ' :: classNameAt c rest

theorem class_heading_eq (rest : List Char) :
    c.heading ++ rest =
      (if c.isSealed then "sealed ".toList else []) ++ classKeywordAt c rest :=
  class_eq rfl rfl rfl

def classHeader (rest : List Char) : Header where
  kind := .classLike
  name := c.name.chars
  modifier := if c.isSealed then some .sealed else none
  supertype := c.supertype.chars
  nameAt := classNameAt c ('{' :: rest)
  braceAt := '{' :: rest
  rest := rest

theorem append_space {a w rest : List Char} (h : a = w ++ [' ']) : a ++ rest = w ++ ' ' :: rest := by
  subst h
  simp

theorem optionalKeyword_cons {w : String} {ws : List String} {cs next : List Char}
    (h : keyword? w cs = some next) : optionalKeyword (w :: ws) cs = (some w, next) := by
  rw [keyword?] at h
  simp only [optionalKeyword, List.findSome?_cons, h, Option.map_some]

theorem optionalKeyword_heading (rest : List Char) :
    optionalKeyword visibilities (c.heading ++ rest) = (none, c.heading ++ rest) ∧
      optionalKeyword ["sealed", "abstract"] (c.heading ++ rest) =
        (if c.isSealed then some "sealed" else none, classKeywordAt c rest) := by
  have hclass : (classKeywordAt c rest).head? = some 'c' :=
    head?_append_of_head? rfl _
  rw [class_heading_eq]
  cases c.isSealed with
  | true =>
    have hsealed : "sealed ".toList ++ classKeywordAt c rest =
        "sealed".toList ++ ' ' :: classKeywordAt c rest := append_space rfl
    have hhead : ("sealed".toList ++ ' ' :: classKeywordAt c rest).head? = some 's' :=
      head?_append_of_head? rfl _
    rw [if_pos rfl, hsealed]
    refine ⟨optionalKeyword_visibilities hhead (by decide), optionalKeyword_cons ?_⟩
    exact keyword?_append (head?_append_of_solid (solid_of_all rfl)
      (by decide) _)
  | false =>
    refine ⟨optionalKeyword_visibilities hclass (by decide), optionalKeyword_eq_none ?_⟩
    simp only [List.forall_mem_cons, List.not_mem_nil, false_imp_iff, implies_true, and_true]
    exact ⟨keyword?_eq_none (x := 's') rfl hclass (by decide),
      keyword?_eq_none (x := 'a') rfl hclass (by decide)⟩

theorem classHeader?_heading (rest : List Char) :
    classHeader? (c.heading ++ '{' :: rest) = some (classHeader c rest) := by
  obtain ⟨hvisibility, hmodifier⟩ := optionalKeyword_heading c ('{' :: rest)
  have hclass : keyword? "class" (classKeywordAt c ('{' :: rest)) =
      some (classNameAt c ('{' :: rest)) :=
    keyword?_append (head?_append_of_solid (solid_identifier c.name) c.name.ne_nil _)
  have hname : takeWord1? (classNameAt c ('{' :: rest)) =
      some (c.name.chars, afterClassName c ('{' :: rest)) := by
    refine takeWord1?_of_append c.name.ne_nil c.name.isWord ?_
    rintro c ⟨⟩
    rfl
  have hskip : skipBlanks (afterClassName c ('{' :: rest)) =
      ':' :: ' ' :: (c.supertype.chars ++ '(' :: ')' :: ' ' :: '{' :: rest) := by
    rw [afterClassName, skipBlanks_space, skipBlanks_cons (by rfl)]
  have hcolon : after? [':'] (skipBlanks ((emptyCallEnd?
      (':' :: ' ' :: (c.supertype.chars ++ '(' :: ')' :: ' ' :: '{' :: rest))).getD
        (':' :: ' ' :: (c.supertype.chars ++ '(' :: ')' :: ' ' :: '{' :: rest)))) =
      some (' ' :: (c.supertype.chars ++ '(' :: ')' :: ' ' :: '{' :: rest)) := rfl
  have hsupertype : takeWord1? (skipBlanks
      (' ' :: (c.supertype.chars ++ '(' :: ')' :: ' ' :: '{' :: rest))) =
        some (c.supertype.chars, '(' :: ')' :: ' ' :: '{' :: rest) := by
    rw [skipBlanks_space, skipBlanks_eq_self (head?_append_of_solid (solid_identifier c.supertype)
      c.supertype.ne_nil _)]
    refine takeWord1?_of_append c.supertype.ne_nil c.supertype.isWord ?_
    rintro c ⟨⟩
    rfl
  have hcall : emptyCallEnd? (skipBlanks ('(' :: ')' :: ' ' :: '{' :: rest)) =
      some (' ' :: '{' :: rest) := rfl
  have hsealed : ((if c.isSealed then some "sealed" else none).map fun m =>
      if m == "sealed" then Modifier.sealed else .abstract) =
        if c.isSealed then some .sealed else none := by
    cases c.isSealed <;> rfl
  simp only [classHeader?, hvisibility, hmodifier, hclass, hname, hskip, hcolon, hsupertype, hcall,
    hsealed, openingBrace?_space, Option.bind_eq_bind, Option.bind_some]
  rfl

end Classes

end KotlinSchema.Canonical
