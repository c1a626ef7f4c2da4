import KotlinSchema.Proofs.Graph.Histories
import KotlinSchema.Proofs.Workspace.Listing

/-! Declarations of one name in several places. The first one settles where the name stands in the
graph, the last one what it means; classes and enums do not get in each other's way. -/

namespace KotlinSchema
open Source

namespace TypeGraph
variable {g g' : TypeGraph}

section Names

/-- The names of one kind, in the order of the graph. -/
def namesOf (g : TypeGraph) : DeclarationKind → List String
  | .classLike => g.classes.keys
  | .enumLike => g.enums.keys

/-- Two graphs have the same names of a kind, in the same order and with the same meaning. -/
def AgreesOn (kind : DeclarationKind) (g g' : TypeGraph) : Prop :=
  g.namesOf kind = g'.namesOf kind ∧ ∀ name, g.find? (kind, name) = g'.find? (kind, name)

theorem classes_eq_iff : g.classes = g'.classes ↔ AgreesOn .classLike g g' :=
  Table.eq_iff_map_get? fun _ _ => Descriptor.ofClass.inj

theorem enums_eq_iff : g.enums = g'.enums ↔ AgreesOn .enumLike g g' :=
  Table.eq_iff_map_get? fun _ _ => Descriptor.ofEnum.inj

theorem ext_agreesOn (h : ∀ kind, AgreesOn kind g g') : g = g' :=
  ext_classes (classes_eq_iff.2 (h .classLike)) (enums_eq_iff.2 (h .enumLike))

theorem nodup_namesOf (g : TypeGraph) (kind : DeclarationKind) : (g.namesOf kind).Nodup := by
  cases kind with
  | classLike => exact g.classes.keys_nodup
  | enumLike => exact g.enums.keys_nodup

theorem namesOf_add (g : TypeGraph) (x : Descriptor) (kind : DeclarationKind) :
    (g.add x).namesOf kind =
      if x.key.1 = kind then
        if x.key.2 ∈ g.namesOf kind then g.namesOf kind else g.namesOf kind ++ [x.key.2]
      else g.namesOf kind := by
  by_cases hname : x.key.2 ∈ g.namesOf kind <;> cases x <;> cases kind <;>
    simp_all [add, addClass, addEnum, namesOf, Descriptor.key, Table.keys_insert]

theorem namesOf_addAll (g : TypeGraph) (xs : List Descriptor) (kind : DeclarationKind) :
    (g.addAll xs).namesOf kind =
      (g.namesOf kind ++ (xs.filter (·.key.1 = kind)).map (·.key.2)).eraseDups := by
  induction xs generalizing g with
  | nil => simp [addAll, eraseDups_of_nodup (g.nodup_namesOf kind)]
  | cons x xs ih =>
    rw [addAll_cons, ih, namesOf_add, List.filter_cons]
    by_cases hkind : x.key.1 = kind
    · simp only [hkind, if_true, decide_true, List.map_cons, eraseDups_insert_append]
    · simp only [hkind, if_false, decide_false, Bool.false_eq_true]

theorem find?_addAll (g : TypeGraph) (xs : List Descriptor) (k : DeclarationKind × String) :
    (g.addAll xs).find? k = (xs.findRev? (·.key = k)).or (g.find? k) := by
  induction xs generalizing g with
  | nil => rfl
  | cons x xs ih =>
    rw [addAll_cons, ih, find?_add, List.findRev?_eq_find?_reverse,
      List.findRev?_eq_find?_reverse, List.reverse_cons, List.find?_append]
    cases xs.reverse.find? (·.key = k) with
    | some y => rfl
    | none => by_cases hk : k = x.key <;> simp [hk, eq_comm]

theorem addAll_addAll (g : TypeGraph) (xs : List Descriptor) :
    (g.addAll xs).addAll xs = g.addAll xs := by
  refine ext_agreesOn fun kind => ⟨?_, fun name => ?_⟩
  · rw [namesOf_addAll _ xs, namesOf_addAll, eraseDups_append_of_subset,
      eraseDups_of_nodup (nodup_eraseDups _)]
    exact fun name hname => List.mem_eraseDups.2 (List.mem_append_right _ hname)
  · rw [find?_addAll _ xs, find?_addAll]
    cases xs.findRev? (·.key = (kind, name)) <;> rfl

theorem agreesOn_addAll {kind : DeclarationKind} (h : AgreesOn kind g g') (xs : List Descriptor) :
    AgreesOn kind (g.addAll xs) (g'.addAll xs) := by
  refine ⟨?_, fun name => ?_⟩
  · rw [namesOf_addAll, namesOf_addAll, h.1]
  · rw [find?_addAll, find?_addAll, h.2]

end Names

section Sources
variable {sources : List (List Char × Option String)}

/-- What sources make of a graph, one parsed after the other. -/
def parseAll (g : TypeGraph) (sources : List (List Char × Option String)) : TypeGraph :=
  g.after (sources.map fun s => .parse s.1 s.2)

/-- The declarations of one kind that sources add, each with the text it stands in. -/
def declared (kind : DeclarationKind) (sources : List (List Char × Option String)) :
    List (Declaration × List Char) :=
  sources.flatMap fun s => ((admitted s.1 s.2).filter (·.kind = kind)).map fun d => (d, s.1)

theorem map_of_forall₂ {source : List Char} {ds : List Declaration} {xs : List Descriptor}
    (h : List.Forall₂ (fun d x => extract source d = .ok x ∧ x.key = d.key) ds xs)
    (kind : DeclarationKind) :
    (xs.filter (·.key.1 = kind)).map (fun x => (x.key.2, Except.ok x)) =
      (ds.filter (·.kind = kind)).map fun d => (d.name, extract source d) := by
  induction h with
  | nil => rfl
  | @cons d x ds xs hd _ ih =>
    obtain ⟨hextract, hkey⟩ := hd
    simp only [List.filter_cons, hkey, Declaration.key]
    split
    · simp [ih, hextract, hkey, Declaration.key]
    · exact ih

theorem parseAll_cons {s : List Char × Option String} {found : List Descriptor}
    (hfound : descriptors s.1 s.2 = .ok found) (g : TypeGraph) :
    g.parseAll (s :: sources) = (g.addAll found).parseAll sources := by
  obtain ⟨notices, hrun⟩ := run_parse_of_ok g hfound
  calc g.parseAll (s :: sources)
    _ = (((parse s.1 s.2).run.run g).2).parseAll sources := rfl
    _ = (g.addAll found).parseAll sources := by rw [hrun]

theorem parseAll_eq_addAll {founds : List (List Descriptor)}
    (h : sources.map (fun s => descriptors s.1 s.2) = founds.map .ok) (g : TypeGraph) :
    g.parseAll sources = g.addAll founds.flatten := by
  induction sources generalizing g founds with
  | nil =>
    obtain rfl := List.map_eq_nil_iff.1 h.symm
    rfl
  | cons s sources ih =>
    obtain ⟨found, founds, rfl, hfound, hrest⟩ := List.map_eq_cons_iff.1 h.symm
    rw [parseAll_cons hfound.symm, ih hrest.symm, ← addAll_append, List.flatten_cons]

theorem exists_addAll (h : ∀ s ∈ sources, ∃ found, descriptors s.1 s.2 = .ok found) :
    ∃ xs, (∀ g, parseAll g sources = g.addAll xs) ∧ ∀ kind,
      (xs.filter (·.key.1 = kind)).map (fun x => (x.key.2, Except.ok x)) =
        (declared kind sources).map fun p => (p.1.name, extract p.2 p.1) := by
  induction sources with
  | nil => exact ⟨[], fun g => rfl, fun kind => rfl⟩
  | cons s sources ih =>
    obtain ⟨xs, hxs, hdeclared⟩ := ih fun s' hs' => h s' (List.mem_cons_of_mem s hs')
    obtain ⟨found, hfound⟩ := h s List.mem_cons_self
    refine ⟨found ++ xs, fun g => ?_, fun kind => ?_⟩
    · rw [parseAll_cons hfound, hxs, addAll_append]
    · rw [List.filter_append, List.map_append, map_of_forall₂ (forall₂_descriptors hfound),
        hdeclared]
      simp only [declared, List.flatMap_cons, List.map_append, List.map_map, Function.comp_def]

theorem map_ok_find?_addAll (xs : List Descriptor) (kind : DeclarationKind) (name : String) :
    ((empty.addAll xs).find? (kind, name)).map
        (Except.ok : Descriptor → Except UnbalancedBlock Descriptor) =
      (((xs.filter (·.key.1 = kind)).map fun x => (x.key.2, Except.ok x)).findRev?
        (·.1 = name)).map Prod.snd := by
  rw [find?_addAll, find?_empty, Option.or_none]
  simp [List.findRev?_eq_find?_reverse, ← List.map_reverse, ← List.filter_reverse,
    List.find?_filter, Function.comp_def, Prod.ext_iff]

end Sources

section Files
open Pipeline
variable {σ φ : Type} [FileSystem σ φ] {s : σ} {c : Config} {files : List Path}
  {sources : List (List Char × Option String)}

def readAll (s : σ) (files : List Path) : Except φ (List (List Char × Option String)) :=
  files.mapM fun p => (FileSystem.readText s p).map fun text => (text, some p.toString)

theorem readFile_of_parse {p : Path} {text : List Char} {found : List Descriptor}
    (hread : FileSystem.readText s p = .ok text)
    (hfound : descriptors text (some p.toString) = .ok found) (g : TypeGraph) :
    (readFile s g p).outcome = .ok (Step.apply g (.parse text (some p.toString))) := by
  obtain ⟨notices, hrun⟩ := run_parse_of_ok g hfound
  simp only [readFile, ReportOf.outcome_bind, ReportOf.tell, ReportOf.ofExcept, hread, Step.apply,
    Except.mapError, Except.bind, hrun]
  rfl

theorem readFiles_of_readAll (hread : readAll s files = .ok sources)
    (h : ∀ x ∈ sources, ∃ found, descriptors x.1 x.2 = .ok found) (total : Nat) (g : TypeGraph) :
    (readFiles s total g files).outcome = .ok (g.parseAll sources) := by
  induction files generalizing g sources with
  | nil =>
    obtain rfl := Except.ok.inj hread
    rfl
  | cons p files ih =>
    cases htext : FileSystem.readText s p with
    | error fault =>
      rw [readAll, mapM_cons_error (e := fault) (by rw [htext]; rfl)] at hread
      simp at hread
    | ok text =>
      rw [readAll, mapM_cons_ok (b := (text, some p.toString)) (by rw [htext]; rfl),
        map_eq_ok_iff] at hread
      obtain ⟨rest, hrest, rfl⟩ := hread
      obtain ⟨found, hfound⟩ := h _ List.mem_cons_self
      simp only [readFiles, ReportOf.outcome_bind, ReportOf.tell, readFile_of_parse htext hfound]
      exact ih hrest (fun x hx => h x (List.mem_cons_of_mem _ hx)) _

theorem scan_of_readFiles {g : TypeGraph}
    (hdirectory : FileSystem.isDirectory s c.schemaDirectory = .ok true)
    (hfiles : FileSystem.listFiles s c.schemaDirectory c.suffixes = .ok files)
    (hread : (readFiles s files.length .empty files).outcome = .ok g) :
    (Pipeline.scan s c).outcome = .ok g.resolve := by
  simp only [Pipeline.scan, ReportOf.outcome_bind, ReportOf.ofExcept, ReportOf.tell, hdirectory,
    hfiles, Except.mapError, Except.bind, if_true, hread]
  rfl

theorem scan_of_readAll (hdirectory : FileSystem.isDirectory s c.schemaDirectory = .ok true)
    (hfiles : FileSystem.listFiles s c.schemaDirectory c.suffixes = .ok files)
    (hread : readAll s files = .ok sources)
    (h : ∀ x ∈ sources, ∃ found, descriptors x.1 x.2 = .ok found) :
    (Pipeline.scan s c).outcome = .ok (empty.parseAll sources).resolve :=
  scan_of_readFiles hdirectory hfiles (readFiles_of_readAll hread h _ _)

/-- Sources that all parse make a graph of all that they declare, one after the other. A name stands
where it is declared first and means what it is declared as last, among the declarations of its
kind; what there is of the other kind does not matter, and parsing the sources again changes
nothing. A directory below which no path is too long gives the resolved graph of its files in their
order, however it lists them. -/
theorem parse_sources (h : ∀ s ∈ sources, ∃ found, descriptors s.1 s.2 = .ok found) :
    let g := empty.parseAll sources
    (∀ s ∈ sources, (admitted s.1 s.2).Pairwise fun d d' => d.bodyOffset < d'.bodyOffset) ∧
    (∀ kind, g.namesOf kind = ((declared kind sources).map (·.1.name)).eraseDups) ∧
    (∀ kind name, (g.find? (kind, name)).map .ok =
      ((declared kind sources).findRev? (·.1.name = name)).map fun p => extract p.2 p.1) ∧
    (∀ start start' : TypeGraph,
      (start.classes = start'.classes →
        (start.parseAll sources).classes = (start'.parseAll sources).classes) ∧
      (start.enums = start'.enums →
        (start.parseAll sources).enums = (start'.parseAll sources).enums)) ∧
    g.parseAll sources = g ∧
    ∀ (w w' : Workspace) (c : Config), w.isDirectory c.schemaDirectory = true →
      (∀ p node, w.IsBelow c.schemaDirectory p node → Workspace.isTooLong p = false) →
      w.Relists w' → ∃ files, w.listFiles c.schemaDirectory c.suffixes = .ok files ∧
        w.IsListing c.schemaDirectory c.suffixes files ∧
        (readAll w files = .ok sources → (Pipeline.scan w' c).outcome = .ok g.resolve) := by
  intro g
  obtain ⟨xs, hxs, hdeclared⟩ := exists_addAll h
  have hg : g = empty.addAll xs := hxs empty
  refine ⟨fun s _ => ?_, fun kind => ?_, fun kind name => ?_, fun start start' => ⟨?_, ?_⟩, ?_, ?_⟩
  · have hsorted := (pairwise_scan s.1 s.2).and (List.pairwise_map.1 (nodup_bodyOffset s.1 s.2))
    exact (hsorted.imp fun hle => Nat.lt_of_le_of_ne hle.1 hle.2).filter _
  · have hnames : empty.namesOf kind = [] := by cases kind <;> rfl
    have hmap := congrArg (List.map Prod.fst) (hdeclared kind)
    rw [List.map_map, List.map_map] at hmap
    rw [hg, namesOf_addAll, hnames, List.nil_append]
    exact congrArg List.eraseDups hmap
  · rw [hg, map_ok_find?_addAll, hdeclared]
    simp [List.findRev?_eq_find?_reverse, ← List.map_reverse, Function.comp_def]
  · rw [hxs, hxs, classes_eq_iff, classes_eq_iff]
    exact fun hclasses => agreesOn_addAll hclasses xs
  · rw [hxs, hxs, enums_eq_iff, enums_eq_iff]
    exact fun henums => agreesOn_addAll henums xs
  · rw [hxs, hg, addAll_addAll]
  · intro w w' c hdirectory hshort hlist
    obtain ⟨files, hfiles⟩ : ∃ files, w.listFiles c.schemaDirectory c.suffixes = .ok files :=
      Workspace.exists_listFiles hdirectory hshort
    refine ⟨files, hfiles, Workspace.isListing_of_listFiles hdirectory hfiles, fun hread => ?_⟩
    rw [← scan_relists hlist]
    exact scan_of_readAll (Workspace.isDirectory_eq_ok_iff.2 hdirectory) hfiles hread h

def redeclaring : List (List Char × Option String) :=
  [("class A : Base() \x7b val x by value() \x7d\nclass B : Base() \x7b\x7d".toList,
      some "schema/A.kt"),
    ("class A : Base() \x7b val y by value() \x7d".toList, some "schema/B.kt")]

def redeclaringFiles (names : List String) : Workspace where
  nodes := .ofList ((["schema"], .directory) :: names.map fun name => (["schema", name],
    .file ((redeclaring.flatMap fun s => if s.2 = some ("schema/" ++ name) then s.1 else []).map
      fun c => c.toNat.toUInt8)))

def redeclaringConfig : Config where
  schemaSubdirectory := "schema"

def delegated (name : String) : Property where
  name := name
  typeName := "String"

def redeclared : List (List Descriptor) :=
  [[.ofClass { name := "A", parent := some "Base", properties := [delegated "x"] },
      .ofClass { name := "B", parent := some "Base" }],
    [.ofClass { name := "A", parent := some "Base", properties := [delegated "y"] }]]

theorem descriptors_redeclaring :
    redeclaring.map (fun s => descriptors s.1 s.2) = redeclared.map .ok := by
  have hsorted : ∀ s ∈ redeclaring, (foundDeclarations s.1 s.2).Pairwise
      fun d d' => d.bodyOffset < d'.bodyOffset := by
    decide +kernel
  have hscan : ∀ s ∈ redeclaring, descriptors s.1 s.2 =
      (do return (← (foundDeclarations s.1 s.2).mapM (describe s.1)).filterMap id) := fun s hs => by
    rw [descriptors, scan_eq_of_perm .rfl (hsorted s hs)]
  rw [List.map_congr_left hscan]
  decide +kernel

theorem below_redeclaringFiles (directories : Bool) :
    (redeclaringFiles ["A.kt", "B.kt"]).below ["schema"] directories =
      if directories then [] else [["A.kt"], ["B.kt"]] := by
  cases directories
  all_goals
    rw [Workspace.below, List.mergeSort_of_pairwise (by decide)]
    decide

theorem parse_sources_redeclaring :
    (empty.parseAll redeclaring).namesOf .classLike = ["A", "B"] ∧
    (Pipeline.scan (redeclaringFiles ["B.kt", "A.kt"]) redeclaringConfig).outcome =
      .ok (empty.parseAll redeclaring).resolve := by
  have hparse : ∀ s ∈ redeclaring, ∃ found, descriptors s.1 s.2 = .ok found := fun s hs => by
    obtain ⟨found, -, h⟩ := List.mem_map.1 (descriptors_redeclaring ▸ List.mem_map.2 ⟨s, hs, rfl⟩)
    exact ⟨found, h.symm⟩
  have hfind : (redeclaringFiles ["A.kt", "B.kt"]).find? redeclaringConfig.schemaDirectory =
      .ok (some (["schema"], .directory)) := by decide
  have hshort : ∀ p node, (redeclaringFiles ["A.kt", "B.kt"]).IsBelow
      redeclaringConfig.schemaDirectory p node → Workspace.isTooLong p = false := by
    intro p node hp
    obtain ⟨names, hnames, rfl⟩ := (Workspace.exists_isBelow_iff hfind).1 ⟨node, hp, rfl⟩
    have hall : ∀ directories : Bool, ∀ names ∈ if directories then [] else [["A.kt"], ["B.kt"]],
        Workspace.isTooLong (redeclaringConfig.schemaDirectory.join names) = false := by
      decide
    exact hall _ names (below_redeclaringFiles _ ▸ hnames)
  obtain ⟨-, -, -, -, -, hscan⟩ := parse_sources hparse
  obtain ⟨files, hfiles, -, hmade⟩ := hscan _ (redeclaringFiles ["B.kt", "A.kt"])
    redeclaringConfig (by decide) hshort (by decide)
  obtain rfl := ((Workspace.listFiles_eq_ok_iff hfind).1 hfiles).2
  refine ⟨by rw [parseAll_eq_addAll descriptors_redeclaring]; decide, hmade ?_⟩
  rw [below_redeclaringFiles]
  decide

end Files

end TypeGraph

end KotlinSchema
