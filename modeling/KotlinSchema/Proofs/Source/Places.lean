import Mathlib.Data.List.Infix
import KotlinSchema.Proofs.Source.Masking
import KotlinSchema.Proofs.Text.Words
import KotlinSchema.Source.Entry
import KotlinSchema.Source.Scan

/-! The places that recognisers give lie in the text that they were shown: each of them is an ending
of it. A declaration that is found in a text opens its body with a brace in code. -/

namespace KotlinSchema.Source
open Text

section Recognisers
variable {cs rest : List Char}

theorem skipBlanks_suffix (cs : List Char) : skipBlanks cs <:+ cs := List.dropWhile_suffix _

theorem after?_suffix {ws : List Char} (h : after? ws cs = some rest) : rest <:+ cs :=
  ⟨ws, (after?_eq_some h).symm⟩

theorem skipBlanks1?_suffix (h : skipBlanks1? cs = some rest) : rest <:+ cs := by
  cases cs with
  | nil => simp [skipBlanks1?] at h
  | cons c cs =>
    rw [skipBlanks1?] at h
    split at h
    · obtain rfl := Option.some.inj h
      exact (skipBlanks_suffix cs).trans (List.suffix_cons c cs)
    · simp at h

theorem keyword?_suffix {word : String} (h : keyword? word cs = some rest) : rest <:+ cs := by
  obtain ⟨more, hm, hr⟩ := Option.bind_eq_some_iff.1 h
  exact (skipBlanks1?_suffix hr).trans (after?_suffix hm)

theorem optionalKeyword_suffix (keywords : List String) (cs : List Char) :
    (optionalKeyword keywords cs).2 <:+ cs := by
  simp only [optionalKeyword]
  split
  · rename_i k rest h
    obtain ⟨k', -, hk⟩ := List.exists_of_findSome?_eq_some h
    obtain ⟨rest', hr, he⟩ := Option.map_eq_some_iff.1 hk
    obtain ⟨-, rfl⟩ := Prod.mk.inj he
    exact keyword?_suffix hr
  · exact List.suffix_refl cs

theorem takeWord1?_suffix {w : List Char} (h : takeWord1? cs = some (w, rest)) : rest <:+ cs := by
  have hcs := takeWord_append cs
  rw [(takeWord1?_eq_some_iff.1 h).2] at hcs
  exact ⟨w, hcs⟩

theorem groupEnd?_suffix {literals : Nesting → Bool} {nesting : Nesting} {inLiteral : Bool}
    (h : groupEnd? literals nesting inLiteral cs = some rest) : rest <:+ cs := by
  fun_induction groupEnd? literals nesting inLiteral cs <;>
    simp_all only [Option.some.injEq, reduceCtorEq, forall_const] <;>
    grind [List.IsSuffix.trans, List.suffix_cons]

theorem argumentListEnd?_suffix (h : argumentListEnd? cs = some rest) : rest <:+ cs := by
  unfold argumentListEnd? at h
  split at h
  · rename_i inner hi
    have hinner : inner <:+ cs := ((List.suffix_cons '(' inner).trans (hi ▸ skipBlanks_suffix cs))
    exact (groupEnd?_suffix h).trans hinner
  · simp at h

theorem getD_suffix {piece? : List Char → Option (List Char)}
    (hp : ∀ rest, piece? cs = some rest → rest <:+ cs) : (piece? cs).getD cs <:+ cs := by
  cases h : piece? cs with
  | none => exact List.suffix_refl cs
  | some rest => exact hp rest h

theorem annotationEnd?_suffix (h : annotationEnd? cs = some rest) : rest <:+ cs := by
  unfold annotationEnd? at h
  split at h
  · rename_i cs
    obtain ⟨⟨w, more⟩, hw, rfl⟩ := Option.map_eq_some_iff.1 h
    exact (getD_suffix fun _ => argumentListEnd?_suffix).trans
      ((takeWord1?_suffix hw).trans (List.suffix_cons '@' cs))
  · simp at h

theorem annotationAndBlanksEnd?_suffix (h : annotationAndBlanksEnd? cs = some rest) :
    rest <:+ cs := by
  obtain ⟨more, hm, rfl⟩ := Option.map_eq_some_iff.1 h
  exact (skipBlanks_suffix more).trans (annotationEnd?_suffix hm)

theorem consecutive_suffix {piece? : List Char → Option (List Char)} (ha : Advances piece?)
    (hp : ∀ cs rest, piece? cs = some rest → rest <:+ cs) (cs : List Char) :
    (consecutive piece? ha cs).2 <:+ cs ∧ ∀ start ∈ (consecutive piece? ha cs).1, start <:+ cs := by
  fun_induction consecutive piece? ha cs with
  | case1 cs h => simp
  | case2 cs rest h starts stop hrest ih =>
    have hs := hp cs rest h
    rw [hrest] at ih
    refine ⟨ih.1.trans hs, fun start hstart => ?_⟩
    rcases List.mem_cons.1 hstart with rfl | hstart
    · exact List.suffix_refl _
    · exact (ih.2 start hstart).trans hs

theorem emptyCallEnd?_suffix (h : emptyCallEnd? cs = some rest) : rest <:+ cs := by
  unfold emptyCallEnd? at h
  split at h
  · rename_i inner
    exact (after?_suffix h).trans ((skipBlanks_suffix inner).trans (List.suffix_cons '(' inner))
  · simp at h

theorem parametersEnd?_suffix (h : parametersEnd? cs = some rest) : rest <:+ cs := by
  unfold parametersEnd? at h
  split at h
  · rename_i inner
    exact (groupEnd?_suffix h).trans (List.suffix_cons '(' inner)
  · simp at h

theorem interfaceEnd?_suffix (h : interfaceEnd? cs = some rest) : rest <:+ cs := by
  simp only [interfaceEnd?, Option.bind_eq_bind, Option.bind_eq_some_iff] at h
  obtain ⟨more, hm, h⟩ := h
  split at h
  · simp at h
  · obtain rfl := Option.some.inj h
    exact (getD_suffix fun _ => emptyCallEnd?_suffix).trans <|
      (List.dropWhile_suffix _).trans <| (skipBlanks_suffix more).trans <|
        (after?_suffix hm).trans (skipBlanks_suffix cs)

theorem nameStops_suffix {stop : List Char} (h : stop ∈ nameStops cs) : stop <:+ cs := by
  unfold nameStops at h
  split at h
  · rename_i cs
    obtain ⟨k, -, rfl⟩ := List.mem_map.1 h
    exact (List.drop_suffix (k + 1) cs).trans (List.suffix_cons '@' cs)
  · simp at h

theorem annotationStops_suffix {stop : List Char} (h : stop ∈ annotationStops cs) :
    stop <:+ cs := by
  have hrun := consecutive_suffix annotationAndBlanksEnd?_advances
    (fun _ _ => annotationAndBlanksEnd?_suffix) cs
  rcases List.mem_cons.1 h with rfl | h
  · exact hrun.1
  · obtain ⟨start, hstart, hstop⟩ := List.mem_flatMap.1 h
    exact (nameStops_suffix hstop).trans (hrun.2 start (List.mem_reverse.1 hstart))

theorem exists_of_entryText? {before : Option Char} {e : EntryText}
    (h : entryText? before cs = some (e, rest)) :
    e.nameAt = (annotationRun cs).2 ∧ ∃ afterName inside more,
      takeWord1? e.nameAt = some (e.name, afterName) ∧ skipBlanks afterName = '(' :: inside ∧
      literal? (skipBlanks inside) = some (e.value, more) ∧
      groupEnd? (fun nesting => nesting == .outer) .outer false more = some rest ∧
      e.arguments = (between more rest).dropLast := by
  simp only [entryText?] at h
  split at h
  · simp only [Option.bind_eq_bind, Option.bind_eq_some_iff] at h
    obtain ⟨⟨name, afterName⟩, hname, inside, hinside, ⟨value, more⟩, hvalue, stop, hstop, h⟩ := h
    obtain ⟨rfl, rfl⟩ := Prod.mk.inj (Option.some.inj h)
    refine ⟨rfl, afterName, inside, more, ?_, after?_eq_some hinside, hvalue, hstop, rfl⟩
    unfold entryName? at hname
    split at hname
    · split at hname
      · exact hname
      · simp at hname
    · simp at hname
  · simp at h

theorem literalEnd?_suffix (h : literalEnd? cs = some rest) : rest <:+ cs := by
  fun_induction literalEnd? cs <;>
    simp_all only [Option.some.injEq, reduceCtorEq, forall_const] <;>
    grind [List.IsSuffix.trans, List.suffix_cons]

theorem eq_append_of_literal? {value : List Char} (h : literal? cs = some (value, rest)) :
    value.head? = some '"' ∧ cs = value ++ rest := by
  unfold literal? at h
  split at h
  · obtain ⟨stop, hend, heq⟩ := Option.map_eq_some_iff.1 h
    obtain ⟨rfl, rfl⟩ := Prod.mk.inj heq
    obtain ⟨content, rfl⟩ := literalEnd?_suffix hend
    exact ⟨rfl, by simp⟩
  · simp at h

theorem literal?_suffix {value : List Char} (h : literal? cs = some (value, rest)) :
    rest <:+ cs := ⟨value, (eq_append_of_literal? h).2.symm⟩

theorem annotationRun_suffix (cs : List Char) : (annotationRun cs).2 <:+ cs :=
  (consecutive_suffix _ (fun _ _ => annotationAndBlanksEnd?_suffix) cs).1

theorem exists_chars_of_entryText? {before : Option Char} {e : EntryText}
    (h : entryText? before cs = some (e, rest)) : ∃ chars, chars ≠ [] ∧ cs = chars ++ rest := by
  obtain ⟨hnameAt, afterName, inside, more, hname, hinside, hvalue, hstop, -⟩ :=
    exists_of_entryText? h
  have hrest : rest <:+ inside :=
    (groupEnd?_suffix hstop).trans ((literal?_suffix hvalue).trans (skipBlanks_suffix inside))
  have hafter : '(' :: inside <:+ cs :=
    (hinside ▸ skipBlanks_suffix afterName).trans
      ((takeWord1?_suffix hname).trans (hnameAt ▸ annotationRun_suffix cs))
  obtain ⟨chars, hchars⟩ := hrest.trans ((List.suffix_cons '(' inside).trans hafter)
  refine ⟨chars, ?_, hchars.symm⟩
  rintro rfl
  have hshort := hrest.length_le
  have hlong := hafter.length_le
  rw [← hchars, List.length_cons, List.nil_append] at hlong
  omega

end Recognisers

section Headers
variable {cs rest braceAt : List Char} {h : Header}

theorem exists_of_emptyCallEnd? (h : emptyCallEnd? cs = some rest) :
    ∃ inner, (∀ c ∈ inner, isBlank c = true) ∧ cs = ['('] ++ inner ++ [')'] ++ rest := by
  unfold emptyCallEnd? at h
  split at h
  · rename_i text
    obtain ⟨inner, hinner, htext⟩ := exists_blanks text
    refine ⟨inner, hinner, ?_⟩
    rw [after?_eq_some h] at htext
    simpa using htext
  · simp at h

theorem exists_of_openingBrace? (h : openingBrace? cs = some (braceAt, rest)) :
    braceAt = '{' :: rest ∧ ∃ outer, (∀ c ∈ outer, isBlank c = true) ∧ cs = outer ++ braceAt := by
  unfold openingBrace? at h
  split at h
  · rename_i more hm
    obtain ⟨rfl, rfl⟩ := Prod.mk.inj (Option.some.inj h)
    exact ⟨rfl, hm ▸ exists_blanks cs⟩
  · simp at h

/-- How a header is spelled: the keyword, a gap, the name that it declares, and later on the brace
that opens the body. -/
structure Header.Spelled (h : Header) (cs : List Char) : Prop where
  keyword : ∃ start gap, IsGap gap ∧ cs = start ++ ("class".toList ++ (gap ++ h.nameAt))
  isName : h.name ≠ [] ∧ ∀ c ∈ h.name, isWord c = true
  name : ∃ link, h.nameAt = h.name ++ (link ++ h.braceAt)
  brace : h.braceAt = '{' :: h.rest

/-- Between its name and its brace a class has a colon, its supertype and a call of that without
arguments. -/
structure Header.CallsSupertype (h : Header) : Prop where
  kind : h.kind = .classLike
  isName : h.supertype ≠ [] ∧ ∀ c ∈ h.supertype, isWord c = true
  call : ∃ link blanks gap inner outer, (∀ c ∈ blanks, isBlank c = true) ∧
    (∀ c ∈ gap, isBlank c = true) ∧ (∀ c ∈ inner, isBlank c = true) ∧
    (∀ c ∈ outer, isBlank c = true) ∧
    h.nameAt = h.name ++ (link ++ [':'] ++ blanks ++ h.supertype ++ gap ++ ['('] ++ inner ++
      [')'] ++ outer ++ h.braceAt)

/-- Between its name and its brace an enum has its marker, and then further supertypes only. -/
structure Header.HasMarker (h : Header) : Prop where
  kind : h.kind = .enumLike
  supertype : h.supertype = enumSupertype.toList
  marker : ∃ link afterMarker,
    h.nameAt = h.name ++ (link ++ (enumSupertype.toList ++ afterMarker)) ∧
    openingBrace? (consecutive interfaceEnd? interfaceEnd?_advances afterMarker).2 =
      some (h.braceAt, h.rest)

theorem spelled_of_enumHeader? (hh : enumHeader? cs = some h) : h.Spelled cs ∧ h.HasMarker := by
  simp only [enumHeader?, Option.bind_eq_bind, Option.bind_eq_some_iff] at hh
  obtain ⟨nameAt, ⟨afterEnum, henum, hclass⟩, ⟨name, afterName⟩, hname, afterColon, hcolon,
    afterMarker, hmarker, hh⟩ := hh
  split at hh
  · simp at hh
  · obtain ⟨⟨braceAt, rest⟩, hbrace, hh⟩ := Option.bind_eq_some_iff.1 hh
    obtain rfl := Option.some.inj hh
    obtain ⟨start, hstart⟩ : afterEnum <:+ cs :=
      (keyword?_suffix henum).trans (optionalKeyword_suffix visibilities cs)
    obtain ⟨gap, hgap, hkeyword⟩ := exists_gap_of_keyword? hclass
    obtain ⟨hne, hword, hnameAt⟩ := eq_append_of_takeWord1? hname
    obtain ⟨link, hlink⟩ : enumSupertype.toList ++ afterMarker <:+ afterName := by
      calc enumSupertype.toList ++ afterMarker
        _ <:+ skipBlanks afterColon := (after?_eq_some hmarker) ▸ List.suffix_refl _
        _ <:+ afterColon := skipBlanks_suffix _
        _ <:+ skipBlanks _ := after?_suffix hcolon
        _ <:+ (parametersEnd? (skipBlanks afterName)).getD (skipBlanks afterName) :=
          skipBlanks_suffix _
        _ <:+ skipBlanks afterName := getD_suffix fun _ => parametersEnd?_suffix
        _ <:+ afterName := skipBlanks_suffix _
    obtain ⟨hbraceAt, outer, -, hstop⟩ := exists_of_openingBrace? hbrace
    obtain ⟨further, hfurther⟩ : braceAt <:+ afterMarker :=
      (hstop ▸ List.suffix_append outer braceAt).trans
        (consecutive_suffix _ (fun _ _ => interfaceEnd?_suffix) afterMarker).1
    have hmarkerAt : nameAt = name ++ (link ++ (enumSupertype.toList ++ afterMarker)) := by
      rw [hnameAt, hlink]
    refine ⟨⟨⟨start, gap, hgap, ?_⟩, ⟨hne, hword⟩, ⟨link ++ enumSupertype.toList ++ further, ?_⟩,
      hbraceAt⟩, rfl, rfl, link, afterMarker, hmarkerAt, hbrace⟩
    · rw [← hstart, hkeyword]
    · simp only [hmarkerAt, ← hfurther, List.append_assoc]

theorem spelled_of_classHeader? (hh : classHeader? cs = some h) :
    h.Spelled cs ∧ h.CallsSupertype := by
  simp only [classHeader?, Option.bind_eq_bind, Option.bind_eq_some_iff] at hh
  obtain ⟨nameAt, hclass, ⟨name, afterName⟩, hname, afterColon, hcolon, ⟨supertype, afterType⟩,
    htype, afterCall, hcall, ⟨braceAt, rest⟩, hbrace, hh⟩ := hh
  obtain rfl := Option.some.inj hh
  obtain ⟨start, hstart⟩ := (optionalKeyword_suffix ["sealed", "abstract"] _).trans
    (optionalKeyword_suffix visibilities cs)
  obtain ⟨space, hspace, hkeyword⟩ := exists_gap_of_keyword? hclass
  obtain ⟨hne, hword, hnameAt⟩ := eq_append_of_takeWord1? hname
  obtain ⟨link, hlink⟩ : [':'] ++ afterColon <:+ afterName := by
    calc [':'] ++ afterColon
      _ <:+ skipBlanks _ := (after?_eq_some hcolon) ▸ List.suffix_refl _
      _ <:+ (emptyCallEnd? (skipBlanks afterName)).getD (skipBlanks afterName) :=
        skipBlanks_suffix _
      _ <:+ skipBlanks afterName := getD_suffix fun _ => emptyCallEnd?_suffix
      _ <:+ afterName := skipBlanks_suffix _
  obtain ⟨blanks, hblanks, hcolonBlanks⟩ := exists_blanks afterColon
  obtain ⟨hneType, hwordType, htypeAt⟩ := eq_append_of_takeWord1? htype
  obtain ⟨gap, hgap, htypeGap⟩ := exists_blanks afterType
  obtain ⟨inner, hinner, hcallAt⟩ := exists_of_emptyCallEnd? hcall
  obtain ⟨hbraceAt, outer, houter, hcallGap⟩ := exists_of_openingBrace? hbrace
  have hcallOf : nameAt = name ++ (link ++ [':'] ++ blanks ++ supertype ++ gap ++ ['('] ++ inner ++
      [')'] ++ outer ++ braceAt) := by
    rw [hnameAt, ← hlink, hcolonBlanks, htypeAt, htypeGap, hcallAt, hcallGap]
    simp
  refine ⟨⟨⟨start, space, hspace, by rw [← hstart, hkeyword]⟩, ⟨hne, hword⟩, ⟨_, hcallOf⟩,
    hbraceAt⟩, rfl, ⟨hneType, hwordType⟩, link, blanks, gap, inner, outer, hblanks, hgap, hinner,
    houter, hcallOf⟩

theorem Header.Spelled.suffix (hs : h.Spelled cs) : h.braceAt <:+ h.nameAt ∧ h.nameAt <:+ cs := by
  obtain ⟨start, gap, -, hcs⟩ := hs.keyword
  obtain ⟨link, hnameAt⟩ := hs.name
  refine ⟨⟨h.name ++ link, ?_⟩, ⟨start ++ ("class".toList ++ gap), ?_⟩⟩
  · rw [hnameAt, List.append_assoc]
  · simp only [hcs, List.append_assoc]

end Headers

/-- What a recogniser of headers accepts opens a body with a brace in the text. -/
def OpensBody (header? : List Char → Option Header) : Prop :=
  ∀ cs h, header? cs = some h → h.braceAt <:+ cs ∧ h.braceAt.head? = some '{'

theorem opensBody_of_spelled {header? : List Char → Option Header}
    (hs : ∀ cs h, header? cs = some h → h.Spelled cs) : OpensBody header? := by
  intro cs h hh
  have hspelled := hs cs h hh
  refine ⟨hspelled.suffix.1.trans hspelled.suffix.2, ?_⟩
  rw [hspelled.brace, List.head?_cons]

theorem enumHeader?_opensBody : OpensBody enumHeader? :=
  opensBody_of_spelled fun _ _ hh => (spelled_of_enumHeader? hh).1

theorem classHeader?_opensBody : OpensBody classHeader? :=
  opensBody_of_spelled fun _ _ hh => (spelled_of_classHeader? hh).1

theorem annotatedHeader?_suffix {header? : List Char → Option Header} (hh : OpensBody header?)
    {cs rest : List Char} {found : AnnotatedHeader}
    (h : annotatedHeader? header? cs = some (found, rest)) :
    found.header.braceAt <:+ cs ∧ found.header.braceAt.head? = some '{' := by
  obtain ⟨stop, hstop, h⟩ := List.exists_of_findSome?_eq_some h
  obtain ⟨header, hheader, h⟩ := Option.map_eq_some_iff.1 h
  obtain ⟨rfl, -⟩ := Prod.mk.inj h
  obtain ⟨hsuffix, hhead⟩ := hh stop header hheader
  exact ⟨hsuffix.trans (annotationStops_suffix hstop), hhead⟩

theorem mem_findFrom {α : Type} {read? : Option Char → List Char → Option (α × List Char)}
    {skip : Nat} {before : Option Char} {text : List Char} {a : α}
    (h : a ∈ findFrom read? skip before text) :
    ∃ earlier place rest, place <:+ text ∧ read? earlier place = some (a, rest) := by
  induction text generalizing skip before with
  | nil => simp [findFrom] at h
  | cons c cs ih =>
    have later : ∀ {skip : Nat}, a ∈ findFrom read? skip (some c) cs →
        ∃ earlier place rest, place <:+ c :: cs ∧ read? earlier place = some (a, rest) := by
      intro skip hmem
      obtain ⟨earlier, place, rest, hplace, hread⟩ := ih hmem
      exact ⟨earlier, place, rest, hplace.trans (List.suffix_cons c cs), hread⟩
    cases skip with
    | succ skip => exact later h
    | zero =>
      cases hr : read? before (c :: cs) with
      | none =>
        rw [findFrom_none hr] at h
        exact later h
      | some found =>
        obtain ⟨b, rest⟩ := found
        rw [findFrom_some hr] at h
        rcases List.mem_cons.1 h with rfl | h
        · exact ⟨before, c :: cs, rest, List.suffix_refl _, hr⟩
        · exact later h

theorem offsetOf_append (before place : List Char) :
    offsetOf (before ++ place) place = before.length := by
  rw [offsetOf, List.length_append, Nat.add_sub_cancel]

theorem getElem?_offsetOf {text place : List Char} (h : place <:+ text) :
    text[offsetOf text place]? = place.head? := by
  obtain ⟨before, rfl⟩ := h
  rw [offsetOf_append, List.getElem?_append_right (Nat.le_refl _), Nat.sub_self,
    List.head?_eq_getElem?]

/-- What a source declares as a scan finds it: the enums, then the classes. -/
def foundDeclarations (source : List Char) (origin : Option String) : List Declaration :=
  let find := fun header? => (findAll (fun _ => annotatedHeader? header?) (mask false source)).map
    (declarationOf (mask false source) (mask true source) origin)
  find enumHeader? ++ find classHeader?

theorem perm_scan (source : List Char) (origin : Option String) :
    (scan source origin).Perm (foundDeclarations source origin) :=
  List.mergeSort_perm _ _

theorem brace_of_mem_scan {source : List Char} {origin : Option String} {d : Declaration}
    (h : d ∈ scan source origin) : (marked source)[d.bodyOffset]? = some ('{', .code) := by
  have brace : ∀ {header? : List Char → Option Header}, OpensBody header? →
      d ∈ (findAll (fun _ => annotatedHeader? header?) (mask false source)).map
        (declarationOf (mask false source) (mask true source) origin) →
      (marked source)[d.bodyOffset]? = some ('{', .code) := by
    intro header? hh hmem
    obtain ⟨found, hfound, rfl⟩ := List.mem_map.1 hmem
    obtain ⟨-, place, rest, hplace, hread⟩ := mem_findFrom hfound
    obtain ⟨hsuffix, hhead⟩ := annotatedHeader?_suffix hh hread
    -- Headers are found where literals and comments are blank.
    refine marked_of_mask (by decide) (by decide) ?_
    rw [declarationOf, getElem?_offsetOf (hsuffix.trans hplace), hhead]
  rcases List.mem_append.1 ((perm_scan source origin).mem_iff.1 h) with h | h
  · exact brace enumHeader?_opensBody h
  · exact brace classHeader?_opensBody h

end KotlinSchema.Source
