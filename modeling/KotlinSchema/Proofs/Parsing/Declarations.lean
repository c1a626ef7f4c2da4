import KotlinSchema.Proofs.Parsing.Faults
import KotlinSchema.Proofs.Source.Bodies
import KotlinSchema.Proofs.Source.Resumption
import KotlinSchema.Proofs.Source.Stretches

/-! What is found in a text. Declarations come in the order of the braces that open their bodies, no
brace opens two of them, and all that is said of a header stands in code: its name, its line, and
the supertype of a class with the call of it. -/

namespace KotlinSchema
open Text Source

section Code
variable {source before part after : List Char}

/-- A word stands at an offset, and all of it is code. -/
def CodeAt (source : List Char) (offset : Nat) (word : List Char) : Prop :=
  ∀ i c, word[i]? = some c → (offset + i, c) ∈ keptChars false source 0

def visibleIn (source : List Char) (start stop : Nat) : List Char :=
  (codeIn source start stop).filter fun c => !isBlank c

theorem visibleIn_eq (source : List Char) (start stop : Nat) :
    visibleIn source start stop =
      (((mask false source).take stop).drop start).filter fun c => !isBlank c := by
  rw [visibleIn, codeIn_eq, mask, ← List.map_take, ← List.map_drop]
  induction ((marked source).take stop).drop start with
  | nil => rfl
  | cons m ms ih =>
    cases hkept : m.2.isKept false with
    | true =>
      have hshown : shown false m = m.1 := shown_of_kept hkept
      simp only [List.filter_cons, hkept, if_true, List.map_cons, hshown, ih]
    | false =>
      -- A literal or a comment is shown as blanks, which are left out on both sides.
      have hblank : isBlank (shown false m) = true := by
        rcases shown_of_not_kept hkept with hspace | hnewline
        · rw [hspace]
          decide
        · rw [hnewline]
          decide
      simpa [List.filter_cons, hkept, hblank] using ih

theorem visibleIn_of_mask (h : mask false source = before ++ (part ++ after)) :
    visibleIn source before.length (before.length + part.length) =
      part.filter fun c => !isBlank c := by
  rw [visibleIn_eq, h, List.take_length_add_append, List.take_left, List.drop_left]

theorem codeAt_of_mask (h : mask false source = before ++ (part ++ after))
    (hword : ∀ c ∈ part, isWord c = true) : CodeAt source before.length part := by
  intro i c hc
  have hat : (mask false source)[before.length + i]? = some c := by
    rw [h]
    exact getElem?_between hc
  have hblank : isBlank c = false := not_isBlank_of_isWord (hword c (List.mem_of_getElem? hc))
  have hspace : c ≠ ' ' := by
    rintro rfl
    exact absurd hblank (by decide)
  have hnewline : c ≠ '\n' := by
    rintro rfl
    exact absurd hblank (by decide)
  exact mem_keptChars_false.2 (marked_of_mask hspace hnewline hat)

theorem filter_of_blanks (h : ∀ c ∈ part, isBlank c = true) :
    (part.filter fun c => !isBlank c) = [] :=
  List.filter_eq_nil_iff.2 fun c hc => by simp [h c hc]

end Code

namespace Source.Declaration

/-- The name that a declaration reports stands in code at an offset before its body, in the line
that it reports, and behind the keyword of a class with only blanks between them. -/
structure NamedAt (d : Declaration) (source : List Char) (offset : Nat) : Prop where
  isName : d.name ≠ ""
  name : CodeAt source offset d.name.toList
  before : offset + d.name.toList.length ≤ d.bodyOffset
  line : d.line = (source.take offset).count '\n' + 1
  keyword : ∃ start, CodeAt source start "class".toList ∧ start + 5 < offset ∧
    visibleIn source (start + 5) offset = []

/-- The supertype that a declaration reports stands in code at an offset, and nothing else than a
call without arguments stands between it and the brace. -/
structure CallsAt (d : Declaration) (source : List Char) (offset : Nat) : Prop where
  supertype : ∃ supertype, d.supertype = some supertype ∧ supertype ≠ "" ∧
    CodeAt source offset supertype.toList ∧
    offset + supertype.toList.length ≤ d.bodyOffset ∧
    visibleIn source (offset + supertype.toList.length) d.bodyOffset = ['(', ')']

section Headers
variable {source more stop : List Char} (origin : Option String) {found : AnnotatedHeader}

theorem ofList_ne_empty {cs : List Char} (h : cs ≠ []) : String.ofList cs ≠ "" := by
  intro hempty
  have hcs : cs = [] := by simpa using congrArg String.toList hempty
  exact h hcs

theorem namedAt_of_spelled (hcode : mask false source = more ++ stop)
    (hs : found.header.Spelled stop) :
    (declarationOf (mask false source) (mask true source) origin found).NamedAt source
      (offsetOf (mask false source) found.header.nameAt) := by
  obtain ⟨start, gap, hgap, hkeyword⟩ := hs.keyword
  obtain ⟨link, hname⟩ := hs.name
  -- The masked text is cut before the keyword, behind it and before the name.
  obtain ⟨before, hkeywordAt⟩ : ∃ before,
      mask false source = before ++ ("class".toList ++ (gap ++ found.header.nameAt)) :=
    ⟨more ++ start, by rw [hcode, hkeyword, List.append_assoc]⟩
  have hgapAt : mask false source =
      (before ++ "class".toList) ++ (gap ++ found.header.nameAt) := by
    rw [hkeywordAt, List.append_assoc before]
  have hnameAt : mask false source =
      (before ++ "class".toList ++ gap) ++
        (found.header.name ++ (link ++ found.header.braceAt)) := by
    rw [hgapAt, ← hname, List.append_assoc _ gap]
  have hoffset : offsetOf (mask false source) found.header.nameAt =
      (before ++ "class".toList ++ gap).length := by
    rw [hnameAt, ← hname, offsetOf_append]
  have hbrace : offsetOf (mask false source) found.header.braceAt =
      (before ++ "class".toList ++ gap ++ found.header.name ++ link).length := by
    rw [hnameAt, ← List.append_assoc, ← List.append_assoc, offsetOf_append]
  have hclassWord : ∀ c ∈ "class".toList, isWord c = true := List.all_eq_true.1 rfl
  have hclass : (before ++ "class".toList).length = before.length + 5 := List.length_append
  have hgapLength : (before ++ "class".toList ++ gap).length = before.length + 5 + gap.length := by
    rw [List.length_append, hclass]
  have hnameEq : (declarationOf (mask false source) (mask true source) origin found).name.toList =
      found.header.name := String.toList_ofList
  rw [hoffset]
  refine ⟨ofList_ne_empty hs.isName.1, ?_, ?_, ?_, before.length, ?_, ?_, ?_⟩
  · rw [hnameEq]
    exact codeAt_of_mask hnameAt hs.isName.2
  · rw [hnameEq, ← List.length_append]
    change _ ≤ offsetOf (mask false source) found.header.braceAt
    rw [hbrace]
    exact (List.sublist_append_left _ link).length_le
  · change lineAt (mask true source) (offsetOf (mask false source) found.header.nameAt) = _
    rw [lineAt_mask, hoffset, lineAt]
  · exact codeAt_of_mask hkeywordAt hclassWord
  · have hpos : 0 < gap.length := List.length_pos_iff.2 hgap.1
    omega
  · have hvisible := visibleIn_of_mask hgapAt
    rw [filter_of_blanks hgap.2, hclass] at hvisible
    rw [hgapLength]
    exact hvisible

theorem callsAt_of_spelled (hcode : mask false source = more ++ stop)
    (hs : found.header.Spelled stop) (hcalls : found.header.CallsSupertype) :
    ∃ offset, offsetOf (mask false source) found.header.nameAt + found.header.name.length < offset ∧
      (declarationOf (mask false source) (mask true source) origin found).CallsAt source
        offset := by
  obtain ⟨link, blanks, gap, inner, outer, -, hgap, hinner, houter, hnameAt⟩ := hcalls.call
  have hcall : ((gap ++ ['('] ++ inner ++ [')'] ++ outer).filter fun c => !isBlank c) =
      ['(', ')'] := by
    simp only [List.filter_append, filter_of_blanks hgap, filter_of_blanks hinner,
      filter_of_blanks houter]
    decide
  have hlead : 0 < (link ++ [':'] ++ blanks).length := by
    simp only [List.length_append, List.length_singleton]
    omega
  obtain ⟨before, hname⟩ : ∃ before, mask false source = before ++ found.header.nameAt := by
    obtain ⟨start, hstart⟩ := hs.suffix.2
    exact ⟨more ++ start, by rw [hcode, ← hstart, List.append_assoc]⟩
  -- The masked text is cut before the supertype and behind it, where the call stands.
  have hsupertype : mask false source =
      (before ++ found.header.name ++ (link ++ [':'] ++ blanks)) ++
        (found.header.supertype ++
          ((gap ++ ['('] ++ inner ++ [')'] ++ outer) ++ found.header.braceAt)) := by
    rw [hname, hnameAt]
    simp only [List.append_assoc]
  generalize link ++ [':'] ++ blanks = lead at hlead hsupertype
  generalize gap ++ ['('] ++ inner ++ [')'] ++ outer = call at hcall hsupertype
  have hcallAt : mask false source =
      (before ++ found.header.name ++ lead ++ found.header.supertype) ++
        (call ++ found.header.braceAt) := by
    rw [hsupertype, List.append_assoc _ found.header.supertype]
  have hoffset : offsetOf (mask false source) found.header.nameAt = before.length := by
    rw [hname, offsetOf_append]
  have hbrace : offsetOf (mask false source) found.header.braceAt =
      (before ++ found.header.name ++ lead ++ found.header.supertype).length + call.length := by
    rw [hcallAt, ← List.append_assoc, offsetOf_append, List.length_append]
  refine ⟨(before ++ found.header.name ++ lead).length, ?_,
    ⟨String.ofList found.header.supertype, rfl, ofList_ne_empty hcalls.isName.1, ?_, ?_, ?_⟩⟩
  · rw [hoffset, List.length_append, List.length_append]
    exact Nat.lt_add_of_pos_right hlead
  · rw [String.toList_ofList]
    exact codeAt_of_mask hsupertype hcalls.isName.2
  · rw [String.toList_ofList, ← List.length_append]
    change _ ≤ offsetOf (mask false source) found.header.braceAt
    rw [hbrace]
    exact Nat.le_add_right _ _
  · rw [String.toList_ofList, ← List.length_append]
    change visibleIn source _ (offsetOf (mask false source) found.header.braceAt) = _
    rw [hbrace, visibleIn_of_mask hcallAt, hcall]

end Headers

theorem exists_of_mem_scan {source : List Char} {origin : Option String} {d : Declaration}
    (h : d ∈ scan source origin) :
    ∃ found more stop, d = declarationOf (mask false source) (mask true source) origin found ∧
      mask false source = more ++ stop ∧ found.header.Spelled stop ∧
      (found.header.HasMarker ∨ found.header.CallsSupertype) := by
  have hfound := (perm_scan source origin).mem_iff.1 h
  simp only [foundDeclarations, List.mem_append, List.mem_map] at hfound
  rcases hfound with ⟨found, hfound, rfl⟩ | ⟨found, hfound, rfl⟩
  · obtain ⟨more, stop, hcode, hheader⟩ := exists_of_mem_findAll hfound
    obtain ⟨hs, hmarker⟩ := spelled_of_enumHeader? hheader
    exact ⟨found, more, stop, rfl, hcode, hs, .inl hmarker⟩
  · obtain ⟨more, stop, hcode, hheader⟩ := exists_of_mem_findAll hfound
    obtain ⟨hs, hcalls⟩ := spelled_of_classHeader? hheader
    exact ⟨found, more, stop, rfl, hcode, hs, .inr hcalls⟩

theorem pairwise_bodyOffset (source : List Char) (origin : Option String) :
    ((scan source origin).map (·.bodyOffset)).Pairwise (· < ·) := by
  have hnodup : (scan source origin).Pairwise fun d d' => d.bodyOffset ≠ d'.bodyOffset :=
    List.pairwise_map.1 (nodup_bodyOffset source origin)
  rw [List.pairwise_map]
  exact ((pairwise_scan source origin).and hnodup).imp fun h => Nat.lt_of_le_of_ne h.1 h.2

/-- Declarations come in the strict order of their bodies, each of which a brace in code opens. Their
names stand in code before it, in the lines that they report. A class has a supertype that is called
without arguments right before the brace, and an enum has its marker. -/
theorem scan_reports_code (source : List Char) (origin : Option String) :
    ((scan source origin).map (·.bodyOffset)).Pairwise (· < ·) ∧
    ∀ d ∈ scan source origin,
      (d.bodyOffset, '{') ∈ keptChars false source 0 ∧
      ∃ nameAt, d.NamedAt source nameAt ∧
        match d.kind with
        | .classLike => ∃ typeAt, nameAt + d.name.toList.length < typeAt ∧ d.CallsAt source typeAt
        | .enumLike => d.supertype = some enumSupertype := by
  refine ⟨pairwise_bodyOffset source origin, fun d hd => ?_⟩
  have hbrace : (d.bodyOffset, '{') ∈ keptChars false source 0 :=
    mem_keptChars_false.2 (brace_of_mem_scan hd)
  obtain ⟨found, more, stop, rfl, hcode, hs, hkind⟩ := exists_of_mem_scan hd
  refine ⟨hbrace, _, namedAt_of_spelled origin hcode hs, ?_⟩
  rcases hkind with hmarker | hcalls
  · simp only [declarationOf, hmarker.kind, hmarker.supertype, String.ofList_toList]
  · have hcall := callsAt_of_spelled origin hcode hs hcalls
    simpa only [declarationOf, hcalls.kind, String.toList_ofList] using hcall

def headedSource : List Char :=
  "// class X : Y() \x7b\nclass A /* \"\x7b */ : Base( ) \x7b \x7d\nenum class E : SchemaEnum, I \x7b\x7d".toList

def headedClass : Declaration where
  kind := .classLike
  name := "A"
  bodyOffset := 46
  line := 2
  supertype := some "Base"

def headedEnum : Declaration where
  kind := .enumLike
  name := "E"
  bodyOffset := 79
  line := 3
  supertype := some "SchemaEnum"

theorem scan_reports_code_headedSource :
    headedClass ∈ scan headedSource none ∧ headedEnum ∈ scan headedSource none ∧
    (∃ nameAt, headedClass.NamedAt headedSource nameAt ∧
      ∃ typeAt, nameAt + 1 < typeAt ∧ headedClass.CallsAt headedSource typeAt) ∧
    ∃ nameAt, headedEnum.NamedAt headedSource nameAt := by
  have hscan : scan headedSource none = [headedClass, headedEnum] :=
    scan_eq_of_perm (by decide +kernel) (by decide)
  have hclass : headedClass ∈ scan headedSource none := hscan ▸ List.mem_cons_self
  have henum : headedEnum ∈ scan headedSource none :=
    hscan ▸ List.mem_cons_of_mem _ List.mem_cons_self
  obtain ⟨-, hreported⟩ := scan_reports_code headedSource none
  obtain ⟨-, classAt, hclassAt, hsupertype⟩ := hreported _ hclass
  obtain ⟨-, enumAt, henumAt, -⟩ := hreported _ henum
  exact ⟨hclass, henum, ⟨classAt, hclassAt, hsupertype⟩, enumAt, henumAt⟩

end Source.Declaration

end KotlinSchema
