import KotlinSchema.Proofs.Canonical.Search
import KotlinSchema.Proofs.Model.Tables

/-! Written declarations are read back exactly. Their headers are found in the order in which they
are written, and from each header the declaration is described as it was written. -/

namespace KotlinSchema.Canonical
open Text Source

namespace Declaration

def kind : Declaration → DeclarationKind
  | ofClass _ => .classLike
  | ofEnum _ => .enumLike

def header (d : Declaration) (rest : List Char) : Header :=
  match d with
  | ofClass c => classHeader c rest
  | ofEnum e => enumHeader e rest

end Declaration

def recogniser : DeclarationKind → List Char → Option Header
  | .classLike => classHeader?
  | .enumLike => enumHeader?

section Headers
variable (d : Declaration) (rest : List Char)

theorem recogniser_heading :
    recogniser d.kind (d.heading ++ '{' :: rest) = some (d.header rest) := by
  cases d with
  | ofClass c => exact classHeader?_heading c rest
  | ofEnum e => exact enumHeader?_heading e rest

theorem quiet_tail (kind : DeclarationKind) :
    Quiet (fun _ => annotatedHeader? (recogniser kind)) (d.tail Literal.blanked) rest := by
  cases kind with
  | classLike => exact seeks_class.quiet_tail d rest
  | enumLike => exact seeks_enum.quiet_tail d rest

theorem quiet_print {kind : DeclarationKind} (h : d.kind ≠ kind) :
    Quiet (fun _ => annotatedHeader? (recogniser kind)) (d.print Literal.blanked) rest := by
  cases d with
  | ofClass c =>
    cases kind with
    | classLike => exact absurd rfl h
    | enumLike => exact seeks_enum.quiet_print (.ofClass c) (fun _ => calm_class c) rest
  | ofEnum e =>
    cases kind with
    | classLike => exact seeks_class.quiet_print (.ofEnum e) (fun _ => calm_enum e) rest
    | enumLike => exact absurd rfl h

def foundHeader : AnnotatedHeader where
  start := printTags Literal.blanked d.tags ++ (d.heading ++ '{' :: rest)
  stop := d.heading ++ '{' :: rest
  header := d.header rest

theorem annotatedHeader?_start :
    annotatedHeader? (recogniser d.kind) (foundHeader d rest).start =
      some (foundHeader d rest, rest) := by
  have hrun : (annotationRun (foundHeader d rest).start).2 = d.heading ++ '{' :: rest :=
    annotationRun_printTags passable_blanked (stops_heading d _) d.tags
  have hrest : (d.header rest).rest = rest := by cases d <;> rfl
  rw [annotatedHeader?, annotationStops, hrun, List.findSome?_cons, recogniser_heading,
    Option.map_some, hrest]
  rfl

end Headers

def foundHeaders : List Declaration → List AnnotatedHeader
  | [] => []
  | d :: ds => foundHeader d (d.tail Literal.blanked ++ printAll Literal.blanked ds) :: foundHeaders ds

def declarationHead (f : Literal → List Char) (d : Declaration) : List Char :=
  printTags f d.tags ++ (d.heading ++ ['{'])

theorem print_eq_head (f : Literal → List Char) (d : Declaration) :
    d.print f = declarationHead f d ++ d.tail f := by
  simp only [Declaration.print, declarationHead, List.append_assoc]

theorem start_foundHeader (d : Declaration) (rest : List Char) :
    (foundHeader d rest).start = declarationHead Literal.blanked d ++ rest := by
  simp [foundHeader, declarationHead]

theorem findFrom_headers (kind : DeclarationKind) (ds : List Declaration) (before : Option Char) :
    findFrom (fun _ => annotatedHeader? (recogniser kind)) 0 before (printAll Literal.blanked ds) =
      (foundHeaders ds).filter fun h => h.header.kind = kind := by
  induction ds generalizing before with
  | nil => rfl
  | cons d ds ih =>
    have hkind : (foundHeader d (d.tail Literal.blanked ++
        printAll Literal.blanked ds)).header.kind = d.kind := by cases d <;> rfl
    rw [printAll, List.flatMap_cons, ← printAll, foundHeaders]
    by_cases h : d.kind = kind
    · subst h
      have hne : declarationHead Literal.blanked d ≠ [] := by simp [declarationHead]
      have hread := annotatedHeader?_start d (d.tail Literal.blanked ++ printAll Literal.blanked ds)
      rw [start_foundHeader] at hread
      rw [print_eq_head, List.append_assoc,
        findFrom_of_read hne (show (fun _ => annotatedHeader? (recogniser d.kind)) before _ = _
          from hread),
        findFrom_of_quiet (quiet_tail d _ _), ih, List.filter_cons_of_pos (by simpa using hkind)]
    · rw [findFrom_of_quiet (quiet_print d _ h), ih,
        List.filter_cons_of_neg (by simpa [hkind] using h)]

theorem braceAt_foundHeader (d : Declaration) (rest : List Char) :
    (foundHeader d rest).header.braceAt = '{' :: rest := by cases d <;> rfl

section Scan
variable (ds : List Declaration) (origin : Option String)

theorem length_braceAt_le {h : AnnotatedHeader} (hmem : h ∈ foundHeaders ds) :
    h.header.braceAt.length ≤ (printAll Literal.blanked ds).length := by
  induction ds with
  | nil => simp [foundHeaders] at hmem
  | cons d ds ih =>
    rw [printAll, List.flatMap_cons, ← printAll, print_eq_head, declarationHead]
    rcases List.mem_cons.1 hmem with rfl | hmem
    · rw [braceAt_foundHeader]
      simp only [List.length_append, List.length_cons, List.length_nil]
      omega
    · have := ih hmem
      simp only [List.length_append]
      omega

theorem pairwise_braceAt : (foundHeaders ds).Pairwise
    fun h h' => h'.header.braceAt.length < h.header.braceAt.length := by
  induction ds with
  | nil => exact .nil
  | cons d ds ih =>
    refine List.pairwise_cons.2 ⟨fun h hmem => ?_, ih⟩
    have hlength := length_braceAt_le ds hmem
    rw [braceAt_foundHeader]
    simp only [List.length_cons, List.length_append]
    omega

def scanned (h : AnnotatedHeader) : Source.Declaration :=
  declarationOf (printAll Literal.blanked ds) (text ds) origin h

theorem pairwise_scanned : ((foundHeaders ds).map (scanned ds origin)).Pairwise
    fun d d' => d.bodyOffset < d'.bodyOffset := by
  refine List.pairwise_map.2 ((pairwise_braceAt ds).imp_of_mem fun {h h'} hmem _ hlt => ?_)
  have hlength := length_braceAt_le ds hmem
  simp only [scanned, declarationOf, offsetOf]
  omega

theorem scan_text : scan (text ds) origin = (foundHeaders ds).map (scanned ds origin) := by
  obtain ⟨htext, hcode⟩ := mask_of_masks (masks_printAll ds)
  have hfind : ∀ kind, (findAll (fun _ => annotatedHeader? (recogniser kind))
      (printAll Literal.blanked ds)) = (foundHeaders ds).filter fun h => h.header.kind = kind :=
    fun kind => findFrom_headers kind ds none
  have hclass : (foundHeaders ds).filter (fun h => h.header.kind = .classLike) =
      (foundHeaders ds).filter fun h => !decide (h.header.kind = .enumLike) := by
    refine List.filter_congr fun h _ => ?_
    cases h.header.kind <;> rfl
  have hperm : ((foundHeaders ds).filter (fun h => h.header.kind = .enumLike) ++
      (foundHeaders ds).filter (fun h => h.header.kind = .classLike)).Perm (foundHeaders ds) := by
    rw [hclass]
    exact List.filter_append_perm _ _
  have hfound : foundDeclarations (text ds) origin =
      ((foundHeaders ds).filter (fun h => h.header.kind = .enumLike) ++
        (foundHeaders ds).filter (fun h => h.header.kind = .classLike)).map
          (scanned ds origin) := by
    rw [← hfind, ← hfind, List.map_append]
    simp only [foundDeclarations, text, htext, hcode]
    rfl
  exact scan_eq_of_perm (hfound ▸ hperm.map _) (pairwise_scanned ds origin)

end Scan

section Extraction
variable (origin : Option String)

theorem extract_of_block (d : Declaration) {source code : List Char} {rest : List Char}
    (hblock : block source (offsetOf code ('{' :: rest)) = .ok (d.body Literal.text))
    (htags : (source.take (offsetOf code (foundHeader d rest).stop)).drop
      (offsetOf code (foundHeader d rest).start) = printTags Literal.text d.tags) :
    extract source (declarationOf code source origin (foundHeader d rest)) = .ok d.described := by
  have hannotations : (declarationOf code source origin (foundHeader d rest)).annotations =
      parseAnnotations (printTags Literal.text d.tags) := by rw [← htags, declarationOf]
  cases d with
  | ofClass c =>
    generalize hx : declarationOf code source origin (foundHeader (.ofClass c) rest) = x
      at hannotations
    have hbody : block source x.bodyOffset = .ok (c.body Literal.text) := hx ▸ hblock
    have hname : x.name = c.name.string := hx ▸ rfl
    have hdoc : KotlinSchema.Tag.doc? x.annotations = c.doc.map (·.string) := by
      rw [hannotations]
      exact Tag.doc?_docTags c.doc c.docGap
    have hmodifier : x.modifier.isSome = c.isSealed := by
      rw [← hx]
      change (if c.isSealed then some Modifier.sealed else none).isSome = c.isSealed
      cases c.isSealed <;> rfl
    have hsupertype : x.supertype = some c.supertype.string := hx ▸ rfl
    have hkind : x.kind = .classLike := hx ▸ rfl
    simp only [extract, hbody, hkind, bind, Except.bind, parseProperties_body, hname, hdoc,
      hmodifier, hsupertype, Option.some.injEq]
    rfl
  | ofEnum e =>
    generalize hx : declarationOf code source origin (foundHeader (.ofEnum e) rest) = x
      at hannotations
    have hbody : block source x.bodyOffset = .ok (e.body Literal.text) := hx ▸ hblock
    have hname : x.name = e.name.string := hx ▸ rfl
    have hkind : x.kind = .enumLike := hx ▸ rfl
    have hdoc : KotlinSchema.Tag.doc? x.annotations = e.doc.map (·.string) := by
      rw [hannotations]
      exact Tag.doc?_docTags e.doc e.docGap
    have horder : KotlinSchema.Tag.find? x.annotations Tag.orderSensitiveName = none := by
      rw [hannotations]
      exact Tag.find?_docTags e.doc e.docGap
    simp only [extract, hbody, hkind, bind, Except.bind, parseEntries_body, hname, hdoc, horder]
    rfl

/-- A declaration is described as it was written, wherever it stands in a text. -/
theorem extract_declarationOf (d : Declaration) {start start' rest rest' : List Char}
    (hstart : start'.length = start.length) :
    extract (start ++ (d.print Literal.text ++ rest))
      (declarationOf (start' ++ (d.print Literal.blanked ++ rest'))
        (start ++ (d.print Literal.text ++ rest)) origin
        (foundHeader d (d.tail Literal.blanked ++ rest'))) = .ok d.described := by
  have htags := length_of_masks (masks_printTags d.tags)
  have hcode : start' ++ (d.print Literal.blanked ++ rest') =
      (start' ++ printTags Literal.blanked d.tags ++ d.heading) ++
        '{' :: (d.tail Literal.blanked ++ rest') := by
    simp [Declaration.print]
  have hcode' : start' ++ (d.print Literal.blanked ++ rest') =
      (start' ++ printTags Literal.blanked d.tags) ++
        (d.heading ++ '{' :: (d.tail Literal.blanked ++ rest')) := by
    simp [Declaration.print]
  have hsource : start ++ (d.print Literal.text ++ rest) =
      (start ++ printTags Literal.text d.tags ++ d.heading) ++
        '{' :: (d.body Literal.text ++ '}' :: (d.closeGap.chars ++ rest)) := by
    simp [Declaration.print, Declaration.tail]
  refine extract_of_block origin d ?_ ?_
  · rw [hcode, offsetOf_append, hsource]
    have hlength : (start' ++ printTags Literal.blanked d.tags ++ d.heading).length =
        (start ++ printTags Literal.text d.tags ++ d.heading).length := by
      simp only [List.length_append, hstart, htags]
    rw [hlength, block_of_masks (masks_body d) (ne_brace_body d)]
  · have hstop : offsetOf (start' ++ (d.print Literal.blanked ++ rest'))
        (foundHeader d (d.tail Literal.blanked ++ rest')).stop =
          (start ++ printTags Literal.text d.tags).length := by
      rw [hcode', foundHeader, offsetOf_append, List.length_append, List.length_append, hstart, htags]
    have hbegin : offsetOf (start' ++ (d.print Literal.blanked ++ rest'))
        (foundHeader d (d.tail Literal.blanked ++ rest')).start = start.length := by
      rw [hcode', List.append_assoc, foundHeader, offsetOf_append, hstart]
    rw [hstop, hbegin, hsource, List.append_assoc (start ++ printTags Literal.text d.tags),
      List.take_left, List.drop_left]

theorem mapM_extract (before ds : List Declaration) :
    ((foundHeaders ds).map (scanned (before ++ ds) origin)).mapM (extract (text (before ++ ds))) =
      .ok (ds.map (·.described)) := by
  induction ds generalizing before with
  | nil => rfl
  | cons d ds ih =>
    have hlength := length_of_masks (masks_printAll before)
    have hprint : ∀ f, printAll f (before ++ d :: ds) =
        printAll f before ++ (d.print f ++ printAll f ds) := by
      intro f
      simp [printAll]
    have ih' := ih (before ++ [d])
    rw [List.append_assoc, List.singleton_append] at ih'
    rw [foundHeaders, List.map_cons, mapM_cons_ok, ih']
    · rfl
    · rw [scanned, text, hprint, hprint]
      exact extract_declarationOf origin d hlength

theorem isAdmitted_scanned (ds all : List Declaration) :
    ∀ x ∈ (foundHeaders ds).map (scanned all origin), x.isAdmitted = true := by
  induction ds with
  | nil => simp [foundHeaders]
  | cons d ds ih =>
    refine List.forall_mem_cons.2 ⟨?_, ih⟩
    cases d with
    | ofClass c => exact c.isSchema
    | ofEnum e => rfl

theorem admitted_text (ds : List Declaration) :
    admitted (text ds) origin = (foundHeaders ds).map (scanned ds origin) := by
  rw [admitted, scan_text, List.filter_eq_self]
  exact isAdmitted_scanned origin ds ds

theorem descriptors_text (ds : List Declaration) :
    descriptors (text ds) origin = .ok (ds.map (·.described)) := by
  rw [descriptors_eq, admitted_text]
  exact mapM_extract origin [] ds

end Extraction

def Declaration.class? : Declaration → Option ClassType
  | .ofClass c => some c.described
  | .ofEnum _ => none

def Declaration.enum? : Declaration → Option EnumType
  | .ofClass _ => none
  | .ofEnum e => some e.described

end KotlinSchema.Canonical

namespace KotlinSchema
open Canonical

namespace TypeGraph

theorem classes_addAll (g : TypeGraph) (ds : List Declaration) :
    (g.addAll (ds.map (·.described))).classes =
      (ds.filterMap (·.class?)).foldl (fun t c => t.insert c.name c) g.classes := by
  induction ds generalizing g with
  | nil => rfl
  | cons d ds ih => cases d <;> exact ih _

theorem enums_addAll (g : TypeGraph) (ds : List Declaration) :
    (g.addAll (ds.map (·.described))).enums =
      (ds.filterMap (·.enum?)).foldl (fun t e => t.insert e.name e) g.enums := by
  induction ds generalizing g with
  | nil => rfl
  | cons d ds ih => cases d <;> exact ih _

theorem nodup_names {β : Type} {part? : Declaration → Option β} {name : β → String}
    (hname : ∀ d b, part? d = some b → name b = d.name) {ds : List Declaration}
    (h : (ds.map (·.name)).Nodup) : ((ds.filterMap part?).map name).Nodup := by
  have hsublist : ((ds.filterMap part?).map name).Sublist (ds.map (·.name)) := by
    clear h
    induction ds with
    | nil => exact .slnil
    | cons d ds ih =>
      cases hd : part? d with
      | none =>
        rw [List.filterMap_cons_none hd]
        exact ih.cons _
      | some b =>
        rw [List.filterMap_cons_some hd, List.map_cons, List.map_cons, hname d b hd]
        exact ih.cons_cons _
  exact h.sublist hsublist

theorem name_of_class? (d : Declaration) (c : ClassType) (h : d.class? = some c) :
    c.name = d.name := by
  cases d with
  | ofClass d => exact congrArg ClassType.name (Option.some.inj h).symm
  | ofEnum e => exact absurd h (by simp [Declaration.class?])

theorem name_of_enum? (d : Declaration) (e : EnumType) (h : d.enum? = some e) :
    e.name = d.name := by
  cases d with
  | ofClass c => exact absurd h (by simp [Declaration.enum?])
  | ofEnum d => exact congrArg EnumType.name (Option.some.inj h).symm

def names (g : TypeGraph) : List String := g.classes.keys ++ g.enums.keys

theorem mem_names_of_add {g : TypeGraph} {d : Declaration} {k : String}
    (h : k ∈ (g.add d.described).names) : k = d.name ∨ k ∈ g.names := by
  cases d with
  | ofClass c =>
    rcases List.mem_append.1 h with h | h
    · rw [Declaration.described, add, addClass, Table.keys_insert] at h
      split at h
      · exact .inr (List.mem_append_left _ h)
      · rcases List.mem_append.1 h with h | h
        · exact .inr (List.mem_append_left _ h)
        · exact .inl (List.mem_singleton.1 h)
    · exact .inr (List.mem_append_right _ h)
  | ofEnum e =>
    rcases List.mem_append.1 h with h | h
    · exact .inr (List.mem_append_left _ h)
    · rw [Declaration.described, add, addEnum, Table.keys_insert] at h
      split at h
      · exact .inr (List.mem_append_right _ h)
      · rcases List.mem_append.1 h with h | h
        · exact .inr (List.mem_append_right _ h)
        · exact .inl (List.mem_singleton.1 h)

theorem redeclaration?_eq_none {g : TypeGraph} {d : Declaration} (h : d.name ∉ g.names) :
    g.redeclaration? d.described = none := by
  rw [names, List.mem_append, not_or] at h
  cases d with
  | ofClass c => exact if_neg fun hc => h.1 ((Table.contains_iff _ _).1 hc)
  | ofEnum e => exact if_neg fun he => h.2 ((Table.contains_iff _ _).1 he)

theorem notices_declareAll {ds : List Declaration} (hnodup : (ds.map (·.name)).Nodup)
    {g : TypeGraph} (hfresh : ∀ d ∈ ds, d.name ∉ g.names) :
    ((declareAll (ds.map (·.described))).run g).1 = [] := by
  induction ds generalizing g with
  | nil => rfl
  | cons d ds ih =>
    obtain ⟨hd, hds⟩ := List.nodup_cons.1 hnodup
    obtain ⟨hname, hrest⟩ := List.forall_mem_cons.1 hfresh
    have hother : ∀ d' ∈ ds, d'.name ∉ (g.add d.described).names := by
      intro d' hd' hmem
      rcases mem_names_of_add hmem with he | hmem
      · exact hd (List.mem_map.2 ⟨d', hd', he⟩)
      · exact hrest d' hd' hmem
    change (g.redeclaration? d.described).toList ++
      ((declareAll (ds.map (·.described))).run (g.add d.described)).1 = []
    rw [redeclaration?_eq_none hname, ih hds hother]
    rfl

end TypeGraph

end KotlinSchema

namespace KotlinSchema.Canonical
open TypeGraph

/-- Written declarations of different names are read back exactly: those and no others, in their
order, as they are described, after what the graph has. Nothing is replaced. Any text can be written
as a literal in them. -/
theorem parse_text (ds : List Declaration) (hnodup : (ds.map (·.name)).Nodup)
    (origin : Option String) (g : TypeGraph) (hfresh : ∀ d ∈ ds, d.name ∉ g.names) :
    (∀ s : String, ∃ l : Literal, l.string = s) ∧
    descriptors (text ds) origin = .ok (ds.map (·.described)) ∧
    ∃ g' : TypeGraph, (parse (text ds) origin).run.run g = (.ok [], g') ∧
      g'.classes.entries = g.classes.entries ++
        (ds.filterMap (·.class?)).map (fun c => (c.name, c)) ∧
      g'.enums.entries = g.enums.entries ++
        (ds.filterMap (·.enum?)).map (fun e => (e.name, e)) := by
  have hdescriptors := descriptors_text origin ds
  refine ⟨fun s => ⟨.of s, Literal.string_of s⟩, hdescriptors,
    g.addAll (ds.map (·.described)), ?_, ?_, ?_⟩
  · rw [parse, hdescriptors, ← run_declareAll, ← notices_declareAll hnodup hfresh]
    rfl
  · refine (congrArg Table.entries (classes_addAll g ds)).trans
      (Table.entries_foldl_insert _ (nodup_names name_of_class? hnodup) fun c hc hkey => ?_)
    obtain ⟨d, hd, hclass⟩ := List.mem_filterMap.1 hc
    exact hfresh d hd (name_of_class? d c hclass ▸ List.mem_append_left _ hkey)
  · refine (congrArg Table.entries (enums_addAll g ds)).trans
      (Table.entries_foldl_insert _ (nodup_names name_of_enum? hnodup) fun e he hkey => ?_)
    obtain ⟨d, hd, henum⟩ := List.mem_filterMap.1 he
    exact hfresh d hd (name_of_enum? d e henum ▸ List.mem_append_right _ hkey)

def writtenClass : Class where
  doc := some (.of "Say \"hi\" // \x7b")
  isSealed := true
  name := .of "Module" (by decide +kernel)
  supertype := .of "Base" (by decide +kernel)
  isSchema := by decide +kernel
  properties := [{
    tags := [⟨.bare (.of "Hidden" (by decide +kernel)) (by decide +kernel), .newline⟩,
      ⟨.doc (.of "Where"), .newline⟩]
    nodup_tags := by decide +kernel
    name := .of "targets" (by decide +kernel)
    type := ⟨.map, .traceable (.of "OS" (by decide +kernel)), true⟩
    default? := some
      { chars := "all".toList ++ (['('] ++ "a".toList ++ [')'] ++ [])
        ne_nil := by decide +kernel
        balanced := .append (List.all_eq_true.1 (by decide +kernel))
          (.group (.cons rfl .nil) .nil) } }]
  nodup_names := by decide +kernel

def writtenEnum : Enum where
  doc := none
  name := .of "OS" (by decide +kernel)
  entries := [
    { doc := none
      name := .of "MAC" (by decide +kernel)
      value := .of "mac; \x7d"
      isOutdated := false
      separator := .comma },
    { doc := some (.of "Old")
      name := .of "BSD" (by decide +kernel)
      value := .of "bsd"
      isOutdated := true
      separator := ⟨[], by simp⟩ }]
  terminator := some .newline

def written : List Declaration := [.ofClass writtenClass, .ofEnum writtenEnum]

theorem parse_text_written :
    (written.map (·.name)).Nodup ∧ (∀ d ∈ written, d.name ∉ TypeGraph.empty.names) ∧
    text written = ["@SchemaDoc(\"Say \\\"hi\\\" // \x7b\")\n", "sealed class Module : Base() \x7b\n",
      "@Hidden\n", "@SchemaDoc(\"Where\")\n", "val targets by value<",
      "Map<String, TraceableEnum<OS>>?>", "(default = all(a))\n", "\x7d\n",
      "enum class OS(val schemaValue: String)", " : SchemaEnum \x7b\n", "MAC(\"mac; \x7d\"),\n",
      "@SchemaDoc(\"Old\")\n", "BSD(\"bsd\", outdated = true);\n", "\x7d\n"].flatMap String.toList ∧
    ∃ g : TypeGraph, (parse (text written) none).run.run .empty = (.ok [], g) ∧
      g.classes.entries = [("Module",
        { name := "Module"
          doc := some "Say \"hi\" // \x7b"
          properties := [
            { name := "targets"
              typeName := "TraceableEnum<OS>"
              isNullable := true
              isMap := true
              doc := some "Where"
              defaultText := some "all(a)"
              annotations := ["Hidden", "SchemaDoc(\"Where\")"] }]
          isSealed := true
          parent := some "Base" })] ∧
      g.enums.entries = [("OS",
        { name := "OS"
          entries := [{ name := "MAC", schemaValue := "mac; \x7d" },
            { name := "BSD", schemaValue := "bsd", doc := some "Old", isOutdated := true }] })] := by
  have hnodup : (written.map (·.name)).Nodup := by decide +kernel
  have hfresh : ∀ d ∈ written, d.name ∉ TypeGraph.empty.names :=
    fun _ _ => by simp [names, TypeGraph.empty]
  obtain ⟨-, -, g, hparse, hclasses, henums⟩ := parse_text written hnodup none .empty hfresh
  refine ⟨hnodup, hfresh, by decide +kernel, g, hparse, ?_, ?_⟩
  · rw [hclasses]
    decide +kernel
  · rw [henums]
    decide +kernel

end KotlinSchema.Canonical
