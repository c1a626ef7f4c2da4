import KotlinSchema.Pipeline
import KotlinSchema.Proofs.Except
import KotlinSchema.Proofs.Text.Trimming
import KotlinSchema.Proofs.Workspace.Frame

/-! What is listed below a directory. The order in which a workspace lists its nodes is not noticed:
files are looked up by their locations, and those of a directory are sorted. -/

namespace KotlinSchema

namespace Path
open Text

section Order
variable {ps qs rs : List String}

theorem not_precedes_iff : (!precedes qs ps) = true ↔ ¬List.Lex (· < ·) qs ps := by
  have hlex : qs.lex ps (fun a b => decide (a < b)) = true ↔ _ := List.lex_eq_true_iff_lex _
  simp only [decide_eq_true_eq] at hlex
  rw [← hlex, precedes, Bool.not_eq_true', Bool.not_eq_true]

theorem not_precedes_trans (hqp : (!precedes qs ps) = true) (hrq : (!precedes rs qs) = true) :
    (!precedes rs ps) = true :=
  not_precedes_iff.2 (List.le_trans (not_precedes_iff.1 hqp) (not_precedes_iff.1 hrq))

theorem not_precedes_total (ps qs : List String) :
    ((!precedes qs ps) || !precedes ps qs) = true := by
  rw [Bool.or_eq_true, not_precedes_iff, not_precedes_iff]
  exact List.le_total ps qs

theorem eq_of_not_precedes (hqp : (!precedes qs ps) = true) (hpq : (!precedes ps qs) = true) :
    ps = qs :=
  List.le_antisymm (not_precedes_iff.1 hqp) (not_precedes_iff.1 hpq)

theorem lex_of_ne (h : (!precedes qs ps) = true) (hne : ps ≠ qs) : List.Lex (· < ·) ps qs :=
  (List.le_iff_lt_or_eq.1 (not_precedes_iff.1 h)).resolve_right hne

theorem lex_append_iff (names : List String) :
    List.Lex (· < ·) (names ++ ps) (names ++ qs) ↔ List.Lex (· < ·) ps qs := by
  induction names with
  | nil => rfl
  | cons name names ih =>
    rw [List.cons_append, List.cons_append, ← ih]
    refine ⟨fun h => ?_, .cons⟩
    cases h with
    | cons h => exact h
    | rel h => exact absurd h (String.lt_irrefl name)

theorem not_isBefore_join_iff (p : Path) :
    (!(p.join qs).isBefore (p.join ps)) = true ↔ (!precedes qs ps) = true := by
  rw [isBefore, components_join, components_join, not_precedes_iff, not_precedes_iff,
    lex_append_iff]

end Order

/-- A name cut at its last dot, which is neither its first nor its last character. -/
structure IsCut (name stem extension : List Char) : Prop where
  name_eq : name = stem ++ '.' :: extension
  stem_ne_nil : stem ≠ []
  extension_ne_nil : extension ≠ []
  no_dot : '.' ∉ extension

/-- The suffix of a name is its extension with the dot, or empty if the name cannot be cut. -/
def HasSuffix (name suffix : String) : Prop :=
  (∃ stem extension, IsCut name.toList stem extension ∧
      suffix = String.ofList ('.' :: extension)) ∨
    (suffix = "" ∧ ∀ stem extension, ¬IsCut name.toList stem extension)

section Suffixes
variable {name suffix : String} {stem extension : List Char}

theorem suffixOf_of_dropTrailing {start : List Char}
    (hstart : dropTrailing (· != '.') name.toList = start)
    (hname : name.toList = start ++ extension) :
    suffixOf name =
      if start.length ≤ 1 ∨ extension = [] then "" else String.ofList ('.' :: extension) := by
  have hdrop : name.toList.drop start.length = extension := by rw [hname, List.drop_left]
  simp only [suffixOf, hstart, hdrop, Bool.or_eq_true, decide_eq_true_eq, List.isEmpty_iff]

theorem suffixOf_of_isCut (h : IsCut name.toList stem extension) :
    suffixOf name = String.ofList ('.' :: extension) := by
  have hname : name.toList = stem ++ ['.'] ++ extension := by simp [h.name_eq]
  have hstart : dropTrailing (· != '.') name.toList = stem ++ ['.'] := by
    refine dropTrailing_eq_iff.2 ⟨by simp, extension, fun c hc => ?_, hname⟩
    simpa using fun hdot : c = '.' => h.no_dot (hdot ▸ hc)
  rw [suffixOf_of_dropTrailing hstart hname, if_neg]
  simpa using ⟨h.stem_ne_nil, h.extension_ne_nil⟩

theorem exists_isCut_of_suffixOf (h : suffixOf name ≠ "") :
    ∃ stem extension, IsCut name.toList stem extension := by
  generalize hstart : dropTrailing (· != '.') name.toList = start
  obtain ⟨hlast, extension, hextension, hname⟩ := dropTrailing_eq_iff.1 hstart
  rw [suffixOf_of_dropTrailing hstart hname] at h
  obtain ⟨hlength, hne⟩ := not_or.1 fun hempty => h (if_pos hempty)
  rcases List.eq_nil_or_concat start with rfl | ⟨stem, c, rfl⟩
  · simp at hlength
  · obtain rfl : c = '.' := by simpa using hlast c (by simp)
    refine ⟨stem, extension, by simp [hname], ?_, hne, fun hdot => ?_⟩
    · rintro rfl
      simp at hlength
    · simpa using hextension _ hdot

theorem suffixOf_eq_iff : suffixOf name = suffix ↔ HasSuffix name suffix := by
  constructor
  · rintro rfl
    by_cases hcut : ∃ stem extension, IsCut name.toList stem extension
    · obtain ⟨stem, extension, hcut⟩ := hcut
      exact .inl ⟨stem, extension, hcut, suffixOf_of_isCut hcut⟩
    · exact .inr ⟨by_contra fun h => hcut (exists_isCut_of_suffixOf h), by simpa using hcut⟩
  · rintro (⟨stem, extension, hcut, rfl⟩ | ⟨rfl, hnone⟩)
    · exact suffixOf_of_isCut hcut
    · by_contra h
      obtain ⟨stem, extension, hcut⟩ := exists_isCut_of_suffixOf h
      exact hnone stem extension hcut

end Suffixes

end Path

namespace Workspace

section Below
variable {w : Workspace} {location names : List String} {directories : Bool} {directory p : Path}
  {suffixes : List String} {files : List Path}

theorem mem_below_iff : names ∈ w.below location directories ↔ names ≠ [] ∧
    ∃ node, w.node? (location ++ names) = some node ∧ (node == .directory) = directories := by
  simp only [below, List.mem_mergeSort, List.mem_filterMap]
  constructor
  · rintro ⟨⟨place, node⟩, hmem, hplace⟩
    split at hplace
    · rename_i hlisted
      simp only [Bool.and_eq_true, Bool.not_eq_true', List.isEmpty_eq_false_iff,
        List.isPrefixOf_iff_prefix] at hlisted
      obtain ⟨⟨⟨rest, rfl⟩, hne⟩, hkind⟩ := hlisted
      rw [List.drop_left] at hne hplace
      obtain rfl := Option.some.inj hplace
      refine ⟨hne, node, ?_, by simpa using hkind⟩
      rw [node?, if_neg (by simp [hne])]
      exact Table.get?_of_mem hmem
    · simp at hplace
  · rintro ⟨hne, node, hnode, hkind⟩
    rw [node?, if_neg (by simp [hne])] at hnode
    refine ⟨(location ++ names, node), Table.mem_of_get? hnode, ?_⟩
    rw [List.drop_left, if_pos]
    simp [hne, hkind]

theorem pairwise_below (w : Workspace) (location : List String) (directories : Bool) :
    (w.below location directories).Pairwise fun ps qs => (!Path.precedes qs ps) = true := by
  refine List.pairwise_mergeSort ?_ Path.not_precedes_total _
  exact fun ps qs rs => Path.not_precedes_trans

theorem below_eq_of_perm {found : List (List String)}
    (hsorted : found.Pairwise fun ps qs => (!Path.precedes qs ps) = true)
    (hperm : found.Perm (w.below location directories)) : w.below location directories = found :=
  List.Perm.eq_of_pairwise (fun _ _ _ _ => Path.eq_of_not_precedes)
    (pairwise_below w location directories) hsorted hperm.symm

theorem nodup_below (w : Workspace) (location : List String) (directories : Bool) :
    (w.below location directories).Nodup := by
  rw [below, (List.mergeSort_perm _ _).nodup_iff, List.Nodup, List.pairwise_filterMap]
  refine (List.pairwise_map.1 w.nodes.nodup).imp ?_
  rintro ⟨place, node⟩ ⟨place', node'⟩ hne ps hps qs hqs rfl
  obtain ⟨hlisted, hps⟩ := Option.ite_none_right_eq_some.1 hps
  obtain ⟨hlisted', hqs⟩ := Option.ite_none_right_eq_some.1 hqs
  simp only [Bool.and_eq_true, List.isPrefixOf_iff_prefix] at hlisted hlisted'
  obtain ⟨⟨⟨rest, rfl⟩, -⟩, -⟩ := hlisted
  obtain ⟨⟨⟨rest', rfl⟩, -⟩, -⟩ := hlisted'
  simp only [List.drop_left, Option.some.injEq] at hps hqs
  exact hne (by rw [hps.trans hqs.symm])

theorem pairwise_lex_below (w : Workspace) (location : List String) (directories : Bool) :
    (w.below location directories).Pairwise (List.Lex (· < ·)) :=
  ((pairwise_below w location directories).and (nodup_below w location directories)).imp
    fun h => Path.lex_of_ne h.1 h.2

/-- What is at a path that leads through a directory to a place below it. -/
def IsBelow (w : Workspace) (directory p : Path) (node : Node) : Prop :=
  ∃ top rest, w.locate directory = .ok top ∧ w.node? top = some .directory ∧ rest ≠ [] ∧
    w.node? (top ++ rest) = some node ∧ p = directory.join rest

theorem exists_isBelow_iff (h : w.find? directory = .ok (some (location, .directory))) :
    (∃ node, w.IsBelow directory p node ∧ (node == .directory) = directories) ↔
      ∃ names ∈ w.below location directories, p = directory.join names := by
  obtain ⟨hlocate, hnode⟩ := find?_eq_some_iff.1 h
  simp only [mem_below_iff]
  constructor
  · rintro ⟨node, ⟨top, rest, htop, -, hne, hrest, rfl⟩, hkind⟩
    obtain rfl : location = top := Except.ok.inj (hlocate.symm.trans htop)
    exact ⟨rest, ⟨hne, node, hrest, hkind⟩, rfl⟩
  · rintro ⟨rest, ⟨hne, node, hrest, hkind⟩, rfl⟩
    exact ⟨node, ⟨location, rest, hlocate, hnode, hne, hrest, rfl⟩, hkind⟩

theorem exists_isBelow_file_iff (h : w.find? directory = .ok (some (location, .directory))) :
    (∃ content, w.IsBelow directory p (.file content)) ↔
      ∃ names ∈ w.below location false, p = directory.join names := by
  rw [← exists_isBelow_iff h]
  constructor
  · rintro ⟨content, hbelow⟩
    exact ⟨.file content, hbelow, rfl⟩
  · rintro ⟨node, hbelow, hkind⟩
    cases node with
    | file content => exact ⟨content, hbelow⟩
    | directory => simp at hkind

theorem filesBelow_eq_ok_iff (h : w.find? directory = .ok (some (location, .directory))) :
    w.filesBelow directory = .ok files ↔
      (∀ directories, ∀ names ∈ w.below location directories,
        isTooLong (directory.join names) = false) ∧
      files = (w.below location false).map directory.join := by
  have hshort : ((w.below location true).map directory.join ++
      (w.below location false).map directory.join).find? isTooLong = none ↔
      ∀ directories, ∀ names ∈ w.below location directories,
        isTooLong (directory.join names) = false := by
    simp [List.find?_eq_none, and_comm]
  rw [filesBelow, h, ← hshort]
  simp only [Bind.bind, Except.bind]
  split
  · rename_i p hlong
    rw [hlong]
    simp
  · rename_i hnone
    rw [hnone]
    exact ⟨fun heq => ⟨rfl, (Except.ok.inj heq).symm⟩, fun heq => heq.2 ▸ rfl⟩

theorem listFiles_eq_ok_iff (h : w.find? directory = .ok (some (location, .directory))) :
    w.listFiles directory suffixes = .ok files ↔
      (∀ directories, ∀ names ∈ w.below location directories,
        isTooLong (directory.join names) = false) ∧
      files = ((w.below location false).map directory.join).filter
        fun p => suffixes.contains p.suffix := by
  have hsorted : ((w.below location false).map directory.join).Pairwise
      fun p q => (!q.isBefore p) = true :=
    List.pairwise_map.2 ((pairwise_below w location false).imp (Path.not_isBefore_join_iff _).2)
  rw [listFiles, FileSystem.listFiles, map_eq_ok_iff]
  constructor
  · rintro ⟨found, hfound, rfl⟩
    obtain ⟨hshort, rfl⟩ := (filesBelow_eq_ok_iff h).1 hfound
    exact ⟨hshort, by rw [List.mergeSort_of_pairwise hsorted]⟩
  · rintro ⟨hshort, rfl⟩
    exact ⟨_, (filesBelow_eq_ok_iff h).2 ⟨hshort, rfl⟩, by rw [List.mergeSort_of_pairwise hsorted]⟩

/-- All files below a directory with one of the suffixes, each before those whose paths come later
when they are compared part by part. -/
structure IsListing (w : Workspace) (directory : Path) (suffixes : List String)
    (files : List Path) : Prop where
  mem_iff : ∀ p, p ∈ files ↔ (∃ content, w.IsBelow directory p (.file content)) ∧
    ∃ suffix ∈ suffixes, Path.HasSuffix p.name suffix
  sorted : files.Pairwise fun p q => List.Lex (· < ·) p.parts q.parts

theorem isListing_of_listFiles (h : w.isDirectory directory = true)
    (hfiles : w.listFiles directory suffixes = .ok files) :
    w.IsListing directory suffixes files := by
  obtain ⟨location, hlocate, hnode⟩ := isDirectory_iff.1 h
  have hfind := find?_eq_some_iff.2 ⟨hlocate, hnode⟩
  obtain ⟨-, rfl⟩ := (listFiles_eq_ok_iff hfind).1 hfiles
  constructor
  · intro p
    rw [exists_isBelow_file_iff hfind]
    simp [Path.suffix, ← Path.suffixOf_eq_iff, eq_comm]
  · refine List.Pairwise.filter _ (List.pairwise_map.2 ?_)
    exact (pairwise_lex_below w location false).imp (Path.lex_append_iff _).2

theorem exists_listFiles (h : w.isDirectory directory = true)
    (hshort : ∀ p node, w.IsBelow directory p node → isTooLong p = false) :
    ∃ files, w.listFiles directory suffixes = .ok files := by
  obtain ⟨location, hlocate, hnode⟩ := isDirectory_iff.1 h
  have hfind := find?_eq_some_iff.2 ⟨hlocate, hnode⟩
  refine ⟨_, (listFiles_eq_ok_iff hfind).2 ⟨fun directories names hnames => ?_, rfl⟩⟩
  obtain ⟨node, hbelow, -⟩ := (exists_isBelow_iff hfind).2 ⟨names, hnames, rfl⟩
  exact hshort _ node hbelow

end Below

/-- Two workspaces that hold the same, listed in whatever order. -/
def Relists (w w' : Workspace) : Prop :=
  w.current = w'.current ∧ w.nodes.entries.Perm w'.nodes.entries

instance (w w' : Workspace) : Decidable (Relists w w') := inferInstanceAs (Decidable (_ ∧ _))

namespace Relists
variable {w w' : Workspace}

theorem node? (h : Relists w w') (location : List String) :
    w.node? location = w'.node? location := by
  rw [Workspace.node?, Workspace.node?, Table.get?_perm h.2]

theorem follow (h : Relists w w') (location steps : List String) :
    w.follow location steps = w'.follow location steps := by
  induction steps generalizing location with
  | nil => rfl
  | cons step steps ih =>
    simp only [Workspace.follow, h.node?, ih]

theorem steps (h : Relists w w') (anchor : Anchor) (parts : List String) :
    w.steps anchor parts = w'.steps anchor parts := by
  rw [Workspace.steps, Workspace.steps, h.1]

theorem locate (h : Relists w w') (p : Path) : w.locate p = w'.locate p := by
  rw [Workspace.locate, Workspace.locate, followText, followText, h.steps, h.follow]

theorem find? (h : Relists w w') (p : Path) : w.find? p = w'.find? p := by
  simp only [Workspace.find?, h.locate, h.node?]

theorem readBytes (h : Relists w w') (p : Path) : w.readBytes p = w'.readBytes p := by
  simp only [Workspace.readBytes, h.locate, h.node?]

theorem below (h : Relists w w') (location : List String) (directories : Bool) :
    w.below location directories = w'.below location directories := by
  refine below_eq_of_perm (pairwise_below w' location directories) ?_
  exact (List.mergeSort_perm _ _).trans ((List.Perm.filterMap _ h.2.symm).trans
    (List.mergeSort_perm _ _).symm)

theorem filesBelow (h : Relists w w') (directory : Path) :
    w.filesBelow directory = w'.filesBelow directory := by
  simp only [Workspace.filesBelow, h.find?, h.below]

theorem listFiles (h : Relists w w') (directory : Path) (suffixes : List String) :
    w.listFiles directory suffixes = w'.listFiles directory suffixes :=
  congrArg (Except.map _) (h.filesBelow directory)

end Relists

end Workspace

namespace Pipeline
variable {w w' : Workspace}

theorem readFiles_relists (h : Workspace.Relists w w') (total : Nat) (g : TypeGraph)
    (files : List Path) : readFiles w total g files = readFiles w' total g files := by
  induction files generalizing g with
  | nil => rfl
  | cons p files ih =>
    have hread : FileSystem.readText w p = FileSystem.readText w' p :=
      congrArg (Except.map _) (h.readBytes p)
    simp only [readFiles, readFile, hread, ih]

theorem scan_relists (h : Workspace.Relists w w') (c : Config) : scan w c = scan w' c := by
  have hdirectory : FileSystem.isDirectory w c.schemaDirectory =
      FileSystem.isDirectory w' c.schemaDirectory := congrArg (Except.map _) (h.find? _)
  have hfiles : FileSystem.listFiles w c.schemaDirectory c.suffixes =
      FileSystem.listFiles w' c.schemaDirectory c.suffixes := h.listFiles _ _
  simp only [scan, hdirectory, hfiles, readFiles_relists h]

end Pipeline

end KotlinSchema
