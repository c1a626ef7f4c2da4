import KotlinSchema.Proofs.Source.Places
import KotlinSchema.Proofs.Text.Words
import Mathlib.Data.List.Nodup

/-! A brace opens the body of one declaration at most. What a recogniser finds in a text comes in
the order of the text, and the header of a class and that of an enum differ in what stands before
the brace. -/

namespace KotlinSchema.Source
open Text

section Order
variable {α : Type} {read? : Option Char → List Char → Option (α × List Char)}
  {place : α → List Char}

/-- What is read has a place in the text shown, and reading goes on after that place. -/
def ReadsOn (read? : Option Char → List Char → Option (α × List Char)) (place : α → List Char) :
    Prop :=
  ∀ before cs a rest, read? before cs = some (a, rest) →
    place a <:+ cs ∧ rest.length < (place a).length

theorem length_place_le (h : ReadsOn read? place) {skip : Nat} {before : Option Char}
    {text : List Char} : ∀ a ∈ findFrom read? skip before text,
      (place a).length ≤ text.length - skip := by
  induction text generalizing skip before with
  | nil => simp [findFrom]
  | cons c cs ih =>
    intro a ha
    cases skip with
    | succ skip => simpa using ih a ha
    | zero =>
      cases hr : read? before (c :: cs) with
      | none =>
        rw [findFrom_none hr] at ha
        have := ih a ha
        simp only [List.length_cons]
        omega
      | some found =>
        obtain ⟨b, rest⟩ := found
        obtain ⟨hsuffix, hrest⟩ := h _ _ _ _ hr
        rw [findFrom_some hr] at ha
        rcases List.mem_cons.1 ha with rfl | ha
        · exact hsuffix.length_le
        · have := ih a ha
          simp only [List.length_cons]
          omega

theorem pairwise_findFrom (h : ReadsOn read? place) (skip : Nat) (before : Option Char)
    (text : List Char) :
    (findFrom read? skip before text).Pairwise fun a b =>
      (place b).length < (place a).length := by
  induction text generalizing skip before with
  | nil => simp [findFrom]
  | cons c cs ih =>
    cases skip with
    | succ skip => exact ih skip _
    | zero =>
      cases hr : read? before (c :: cs) with
      | none =>
        rw [findFrom_none hr]
        exact ih 0 _
      | some found =>
        obtain ⟨a, rest⟩ := found
        obtain ⟨hsuffix, hrest⟩ := h _ _ _ _ hr
        rw [findFrom_some hr]
        refine List.pairwise_cons.2 ⟨fun b hb => ?_, ih _ _⟩
        have hb := length_place_le h b hb
        have hlength := hsuffix.length_le
        simp only [List.length_cons] at hlength
        omega

end Order

/-- The character before the type whose call without arguments ends a text, where one does. The
text is given in reverse. -/
def beforeCall? (reversed : List Char) : Option Char :=
  match skipBlanks reversed with
  | ')' :: inner =>
    match skipBlanks inner with
    | '(' :: type => (skipBlanks ((skipBlanks type).dropWhile isTypeChar)).head?
    | _ => none
  | _ => none

section Calls
variable {blanks type : List Char} {c : Char}

theorem isTypeChar_of_isWord (h : isWord c = true) : isTypeChar c = true := by
  simp [isTypeChar, h]

theorem not_isBlank_of_isTypeChar (h : isTypeChar c = true) : isBlank c = false := by
  simp only [isTypeChar, Bool.or_eq_true, beq_iff_eq] at h
  rcases h with ((h | rfl) | rfl) | rfl
  · exact not_isBlank_of_isWord h
  · decide
  · decide
  · decide

theorem not_isTypeChar_of_isBlank (h : isBlank c = true) : isTypeChar c = false := by
  by_contra ht
  simp [not_isBlank_of_isTypeChar (by simpa using ht)] at h

theorem skipBlanks_reverse_append (h : ∀ c ∈ blanks, isBlank c = true) (before : List Char) :
    skipBlanks (before ++ blanks).reverse = skipBlanks before.reverse := by
  rw [List.reverse_append]
  exact skipBlanks_append (by simpa using h) _

theorem skipBlanks_reverse_concat (hc : isBlank c = false) (before : List Char) :
    skipBlanks (before ++ [c]).reverse = c :: before.reverse := by
  rw [List.reverse_append]
  exact skipBlanks_cons hc _

theorem beforeCall?_of_concat (hb : ∀ c ∈ blanks, isBlank c = true) (hc : isBlank c = false)
    (hne : c ≠ ')') (before : List Char) : beforeCall? (before ++ [c] ++ blanks).reverse = none := by
  rw [beforeCall?, skipBlanks_reverse_append hb, skipBlanks_reverse_concat hc]
  split
  · rename_i h
    exact absurd (List.cons.inj h).1 hne
  · rfl

theorem dropWhile_append {before : List Char} (hne : type ≠ [])
    (ht : ∀ c ∈ type, isTypeChar c = true) (hb : ∀ c ∈ blanks, isBlank c = true)
    (hc : isTypeChar c = false) :
    (skipBlanks (before ++ [c] ++ blanks ++ type).reverse).dropWhile isTypeChar =
      (before ++ [c] ++ blanks).reverse := by
  have hstart : ∀ d ∈ (before ++ [c] ++ blanks ++ type).reverse.head?, isBlank d = false := by
    rw [List.head?_reverse, List.getLast?_append_of_ne_nil _ hne]
    exact fun d hd => not_isBlank_of_isTypeChar (ht d (List.mem_of_mem_getLast? hd))
  have hstop : ∀ d ∈ (before ++ [c] ++ blanks).reverse.head?, isTypeChar d = false := by
    rw [List.head?_reverse, List.getLast?_append, List.getLast?_append]
    intro d hd
    cases hlast : blanks.getLast? with
    | none =>
      obtain rfl : c = d := by simpa [hlast] using hd
      exact hc
    | some e =>
      obtain rfl : e = d := by simpa [hlast] using hd
      exact not_isTypeChar_of_isBlank (hb e (List.mem_of_mem_getLast? hlast))
  rw [skipBlanks_eq_self hstart, List.reverse_append,
    List.dropWhile_append_of_pos (by simpa using ht), dropWhile_eq_self hstop]

theorem beforeCall?_of_call {inner outer gap : List Char} (before : List Char)
    (ho : ∀ c ∈ outer, isBlank c = true) (hi : ∀ c ∈ inner, isBlank c = true)
    (hg : ∀ c ∈ gap, isBlank c = true) (hne : type ≠ []) (ht : ∀ c ∈ type, isTypeChar c = true)
    (hb : ∀ c ∈ blanks, isBlank c = true) (hc : isTypeChar c = false) (hc' : isBlank c = false) :
    beforeCall? (before ++ [c] ++ blanks ++ type ++ gap ++ ['('] ++ inner ++ [')'] ++
      outer).reverse = some c := by
  rw [beforeCall?, skipBlanks_reverse_append ho, skipBlanks_reverse_concat (by decide)]
  simp only
  rw [skipBlanks_reverse_append hi, skipBlanks_reverse_concat (by decide)]
  simp only
  rw [List.reverse_append, skipBlanks_append (by simpa using hg), dropWhile_append hne ht hb hc,
    skipBlanks_reverse_append hb, skipBlanks_reverse_concat hc', List.head?_cons]

end Calls

section Headers
variable {cs rest braceAt : List Char} {h : Header}

theorem beforeCall?_of_classHeader? (hh : classHeader? cs = some h) :
    ∃ before, cs = before ++ h.braceAt ∧
      ∀ more, beforeCall? (more ++ before).reverse = some ':' := by
  obtain ⟨hspelled, hcalls⟩ := spelled_of_classHeader? hh
  obtain ⟨start, space, -, hcs⟩ := hspelled.keyword
  obtain ⟨link, blanks, gap, inner, outer, hblanks, hgap, hinner, houter, hnameAt⟩ := hcalls.call
  refine ⟨start ++ "class".toList ++ space ++ h.name ++ link ++ [':'] ++ blanks ++ h.supertype ++
    gap ++ ['('] ++ inner ++ [')'] ++ outer, ?_, fun more => ?_⟩
  · rw [hcs, hnameAt]
    simp
  · have hcolonType : isTypeChar ':' = false := by decide
    have hend := beforeCall?_of_call
      (more ++ start ++ "class".toList ++ space ++ h.name ++ link) houter hinner hgap
      hcalls.isName.1 (fun c hc => isTypeChar_of_isWord (hcalls.isName.2 c hc)) hblanks hcolonType
      (by decide)
    simpa only [List.append_assoc] using hend

theorem consecutive_stop {piece? : List Char → Option (List Char)} (ha : Advances piece?)
    (hp : ∀ cs rest, piece? cs = some rest → rest <:+ cs) (cs : List Char) :
    (consecutive piece? ha cs).2 = cs ∨
      ∃ last, last <:+ cs ∧ piece? last = some (consecutive piece? ha cs).2 := by
  fun_induction consecutive piece? ha cs with
  | case1 cs h => exact .inl rfl
  | case2 cs rest h starts stop hrest ih =>
    right
    rw [hrest] at ih
    rcases ih with ih | ⟨last, hlast, hpiece⟩
    · exact ⟨cs, List.suffix_refl _, h.trans (congrArg some ih.symm)⟩
    · exact ⟨last, hlast.trans (hp cs rest h), hpiece⟩

theorem exists_of_interfaceEnd? (h : interfaceEnd? cs = some rest) :
    ∃ start blanks type call, (∀ c ∈ blanks, isBlank c = true) ∧ type ≠ [] ∧
      (∀ c ∈ type, isTypeChar c = true) ∧ (call = [] ∨
        ∃ inner, (∀ c ∈ inner, isBlank c = true) ∧ call = ['('] ++ inner ++ [')']) ∧
      cs = start ++ [','] ++ blanks ++ type ++ call ++ rest := by
  simp only [interfaceEnd?, Option.bind_eq_bind, Option.bind_eq_some_iff] at h
  obtain ⟨more, hmore, h⟩ := h
  obtain ⟨start, -, hstart⟩ := exists_blanks cs
  obtain ⟨blanks, hblanks, htypeAt⟩ := exists_blanks more
  rw [after?_eq_some hmore, htypeAt] at hstart
  generalize skipBlanks more = typeAt at h hstart
  obtain ⟨type, htype⟩ : ∃ type, type = typeAt.takeWhile isTypeChar := ⟨_, rfl⟩
  have hchars : ∀ c ∈ type, isTypeChar c = true := by
    rw [htype]
    exact fun c hc => List.mem_takeWhile_imp hc
  have hsplit : typeAt = type ++ typeAt.dropWhile isTypeChar := by
    rw [htype, List.takeWhile_append_dropWhile]
  split at h
  · simp at h
  · rename_i hlength
    obtain rfl := Option.some.inj h
    have hne : type ≠ [] := by
      rintro rfl
      exact hlength (congrArg List.length hsplit.symm)
    rw [hsplit] at hstart
    cases hcall : emptyCallEnd? (typeAt.dropWhile isTypeChar) with
    | none => exact ⟨start, blanks, type, [], hblanks, hne, hchars, .inl rfl, by simpa using hstart⟩
    | some rest =>
      obtain ⟨inner, hinner, hrest⟩ := exists_of_emptyCallEnd? hcall
      refine ⟨start, blanks, type, _, hblanks, hne, hchars, .inr ⟨inner, hinner, rfl⟩, ?_⟩
      rw [hstart, hrest]
      simp

theorem beforeCall?_of_enumHeader? (hh : enumHeader? cs = some h) :
    ∃ before, cs = before ++ h.braceAt ∧
      ∀ more, beforeCall? (more ++ before).reverse ≠ some ':' := by
  obtain ⟨hspelled, hmarked⟩ := spelled_of_enumHeader? hh
  obtain ⟨begin, space, -, hcs⟩ := hspelled.keyword
  obtain ⟨link, afterMarker, hnameAt, hbrace⟩ := hmarked.marker
  obtain ⟨-, outer, houter, hstop⟩ := exists_of_openingBrace? hbrace
  obtain ⟨start, hstart⟩ : enumSupertype.toList ++ afterMarker <:+ cs :=
    ⟨begin ++ ("class".toList ++ (space ++ (h.name ++ link))), by simp [hcs, hnameAt]⟩
  rcases consecutive_stop interfaceEnd?_advances (fun _ _ => interfaceEnd?_suffix) afterMarker
    with hnone | ⟨last, ⟨earlier, hlast⟩, hpiece⟩
  · -- The last character of the marker is no parenthesis.
    refine ⟨start ++ "SchemaEnu".toList ++ ['m'] ++ outer, ?_, fun more => ?_⟩
    · rw [← hstart, ← hnone, hstop]
      simp [enumSupertype]
    · have hend := beforeCall?_of_concat houter (c := 'm') (by decide) (by decide)
        (more ++ start ++ "SchemaEnu".toList)
      simp only [List.append_assoc] at hend ⊢
      rw [hend]
      simp
  · obtain ⟨gap, blanks, type, call, hblanks, hne, htype, hcall, hpieceAt⟩ :=
      exists_of_interfaceEnd? hpiece
    refine ⟨start ++ enumSupertype.toList ++ earlier ++ gap ++ [','] ++ blanks ++ type ++ call ++
      outer, ?_, fun more => ?_⟩
    · rw [← hstart, ← hlast, hpieceAt, hstop]
      simp
    rcases hcall with rfl | ⟨inner, hinner, rfl⟩
    · obtain ⟨most, c, rfl⟩ : ∃ most c, type = most ++ [c] :=
        ⟨type.dropLast, type.getLast hne, (List.dropLast_append_getLast hne).symm⟩
      have hc : isTypeChar c = true := htype c (by simp)
      have hend := beforeCall?_of_concat houter (not_isBlank_of_isTypeChar hc)
        (by rintro rfl; simp [show isTypeChar ')' = false by decide] at hc)
        (more ++ start ++ enumSupertype.toList ++ earlier ++ gap ++ [','] ++ blanks ++ most)
      simp only [List.append_assoc, List.nil_append] at hend ⊢
      rw [hend]
      simp
    · have hend := beforeCall?_of_call (c := ',')
        (more ++ start ++ enumSupertype.toList ++ earlier ++ gap) houter hinner
        (List.forall_mem_nil fun c => isBlank c = true) hne htype hblanks (by decide) (by decide)
      simp only [List.append_assoc, List.nil_append] at hend ⊢
      rw [hend]
      simp

end Headers

section Scan
variable {header? : List Char → Option Header} {cs braceAt rest : List Char} {h : Header}

theorem readsOn_annotatedHeader? (hs : ∀ cs h, header? cs = some h → h.Spelled cs) :
    ReadsOn (fun _ => annotatedHeader? header?) fun found => found.header.braceAt := by
  intro _ cs found rest h
  refine ⟨(annotatedHeader?_suffix (opensBody_of_spelled hs) h).1, ?_⟩
  obtain ⟨stop, -, h⟩ := List.exists_of_findSome?_eq_some h
  obtain ⟨header, hheader, h⟩ := Option.map_eq_some_iff.1 h
  obtain ⟨rfl, rfl⟩ := Prod.mk.inj h
  have hbrace : header.braceAt = '{' :: header.rest := (hs stop header hheader).brace
  show header.rest.length < header.braceAt.length
  rw [hbrace]
  exact Nat.lt_succ_self _

theorem exists_of_mem_findAll {code : List Char} {found : AnnotatedHeader}
    (h : found ∈ findAll (fun _ => annotatedHeader? header?) code) :
    ∃ before stop, code = before ++ stop ∧ header? stop = some found.header := by
  obtain ⟨-, place, rest, hplace, hread⟩ := mem_findFrom h
  obtain ⟨stop, hstop, hread⟩ := List.exists_of_findSome?_eq_some hread
  obtain ⟨header, hheader, hread⟩ := Option.map_eq_some_iff.1 hread
  obtain ⟨before, hbefore⟩ := (annotationStops_suffix hstop).trans hplace
  obtain ⟨rfl, -⟩ := Prod.mk.inj hread
  exact ⟨before, stop, hbefore.symm, hheader⟩

theorem nodup_braceOffset (hs : ∀ cs h, header? cs = some h → h.Spelled cs)
    (code : List Char) :
    ((findAll (fun _ => annotatedHeader? header?) code).map fun found =>
      offsetOf code found.header.braceAt).Nodup := by
  have hreads := readsOn_annotatedHeader? hs
  rw [List.Nodup, List.pairwise_map]
  refine (pairwise_findFrom hreads 0 none code).imp_of_mem fun ha hb hlt => ?_
  have hlength := length_place_le hreads _ ha
  simp only [offsetOf]
  omega

theorem offsetOf_ne_of_kinds {code : List Char} {enum cls : AnnotatedHeader}
    (henum : enum ∈ findAll (fun _ => annotatedHeader? enumHeader?) code)
    (hcls : cls ∈ findAll (fun _ => annotatedHeader? classHeader?) code) :
    offsetOf code enum.header.braceAt ≠ offsetOf code cls.header.braceAt := by
  intro hoffset
  obtain ⟨more, stop, hcode, henum⟩ := exists_of_mem_findAll henum
  obtain ⟨more', stop', hcode', hcls⟩ := exists_of_mem_findAll hcls
  obtain ⟨before, rfl, hother⟩ := beforeCall?_of_enumHeader? henum
  obtain ⟨before', rfl, hcolon⟩ := beforeCall?_of_classHeader? hcls
  -- One brace has one text before it, which ends with both headers.
  have hlength : (more ++ before).length = (more' ++ before').length := by
    have h := congrArg List.length hcode
    have h' := congrArg List.length hcode'
    simp only [List.length_append, offsetOf] at h h' hoffset ⊢
    omega
  have hbefore : more ++ before = more' ++ before' := by
    rw [← List.append_assoc] at hcode hcode'
    exact (List.append_inj (hcode.symm.trans hcode') hlength).1
  exact hother more (hbefore ▸ hcolon more')

/-- The declarations of a source have bodies that begin at different offsets. -/
theorem nodup_bodyOffset (source : List Char) (origin : Option String) :
    ((scan source origin).map (·.bodyOffset)).Nodup := by
  have hperm : ((scan source origin).map (·.bodyOffset)).Perm
      (((findAll (fun _ => annotatedHeader? enumHeader?) (mask false source)).map fun found =>
          offsetOf (mask false source) found.header.braceAt) ++
        (findAll (fun _ => annotatedHeader? classHeader?) (mask false source)).map fun found =>
          offsetOf (mask false source) found.header.braceAt) := by
    refine ((perm_scan source origin).map _).trans (.of_eq ?_)
    rw [foundDeclarations, List.map_append, List.map_map, List.map_map]
    rfl
  refine hperm.nodup_iff.2 (List.nodup_append'.2 ⟨?_, ?_, ?_⟩)
  · exact nodup_braceOffset (fun _ _ hh => (spelled_of_enumHeader? hh).1) _
  · exact nodup_braceOffset (fun _ _ hh => (spelled_of_classHeader? hh).1) _
  · rintro offset hleft hright
    obtain ⟨enum, henum, rfl⟩ := List.mem_map.1 hleft
    obtain ⟨cls, hcls, hoffset⟩ := List.mem_map.1 hright
    exact offsetOf_ne_of_kinds henum hcls hoffset.symm

end Scan

end KotlinSchema.Source
