import KotlinSchema.Proofs.Command.Outcomes
import KotlinSchema.Proofs.Graph.Overwriting
import KotlinSchema.Proofs.Json.Documents
import KotlinSchema.Proofs.Text.Utf8
import KotlinSchema.Proofs.Workspace.Locations

/-! A run done again. The first run may have put its output among the sources; but a document
declares nothing, so the second run finds the same graph and writes the same text. -/

namespace KotlinSchema.Pipeline
open Text

/-- The output of a run is none of its sources, and neither it nor a directory on the way to it is
listed below the schema directory by a path that is too long. -/
structure Repeatable (w : Workspace) (c : Config) : Prop where
  isNoSource : ∀ files, w.listFiles c.schemaDirectory c.suffixes = .ok files →
    ∀ p ∈ files, p.location w.current ≠ c.outputPath.location w.current
  isInLimit : ∀ (q : Path) (rest : List String), q.IsOnWay c.outputPath →
    q.location w.current = c.schemaDirectory.location w.current ++ rest →
    Workspace.isTooLong (c.schemaDirectory.join rest) = false

section Outputs
variable {w after : Workspace} {p : Path} {text : String}

/-- The output of a run on a workspace is at its location. -/
structure WrittenAt (p : Path) (content : List UInt8) (location : List String)
    (before after : Workspace) : Prop where
  current : after.current = before.current
  locate : after.locate p = .ok location
  file : after.node? location = some (.file content)
  keeps : ∀ l, before.node? l = some .directory → after.node? l = some .directory
  frame : ∀ l, l ≠ location → after.node? l = before.node? l ∨
    (before.node? l = none ∧ after.node? l = some .directory ∧
      ∃ q : Path, q.IsOnWay p.parent ∧ after.locate q = .ok l)

theorem exists_writeBytes (h : writeOutput w p text = (after, none)) :
    ∃ between, w.makeDirectories p.parent = (between, none) ∧
      between.writeBytes p text.toUTF8.toList = .ok after := by
  obtain ⟨between, hmade, hwrite⟩ := exists_of_writeOutput h
  exact ⟨between, hmade, Workspace.write_eq_done_iff.1 hwrite⟩

theorem exists_writtenAt (h : writeOutput w p text = (after, none)) :
    ∃ location, WrittenAt p text.toUTF8.toList location w after := by
  have hwritten := written_of_writeOutput Workspace.lawful_view h
  obtain ⟨between, hmade, hwrite⟩ := exists_writeBytes h
  obtain ⟨location, hlocate⟩ := hwritten.exists_leads
  refine ⟨location, ?_, hlocate, hwritten.file location hlocate, hwritten.keeps, fun l hl => ?_⟩
  · have hcurrent := Workspace.current_makeDirectories w p.parent
    rw [hmade] at hcurrent
    exact (Workspace.current_writeBytes hwrite).trans hcurrent
  · exact hwritten.frame l fun hl' => hl (Except.ok.inj (hl'.symm.trans hlocate))

theorem writeOutput_again (h : writeOutput w p text = (after, none)) :
    writeOutput after p text = (after, none) := by
  obtain ⟨between, hmade, hwrite⟩ := exists_writeBytes h
  have hparent : after.isDirectory p.parent = true := by
    have hfills := Workspace.fills_writeBytes hwrite
    obtain ⟨l, hlocate, hnode⟩ :=
      Workspace.isDirectory_iff.1 (Workspace.isDirectory_of_makeDirectories hmade)
    refine Workspace.isDirectory_iff.2 ⟨l, hfills.leads p.parent l hlocate, ?_⟩
    exact (hfills.frame l fun hl => hfills.no_directory l hl hnode).trans hnode
  have hmade' := Workspace.makeDirectories_of_isDirectory hparent
  have hwrite' := Workspace.write_eq_done_iff.2 (Workspace.writeBytes_again hwrite)
  change FileSystem.makeDirectories after p.parent = _ at hmade'
  simp only [writeOutput, hmade', hwrite']

end Outputs

section Listing
variable {w after : Workspace} {c : Config} {content : List UInt8}
  {location top names : List String} {p : Path} {files : List Path}

theorem WrittenAt.locate_again (hwritten : WrittenAt p content location w after) {q : Path}
    {l : List String} (h : w.locate q = .ok l) : after.locate q = .ok l :=
  Workspace.locate_of_keeps hwritten.current hwritten.keeps h

theorem node_cases (hwritten : WrittenAt c.outputPath content location w after) {l : List String}
    {node : Node} (h : after.node? l = some node) :
    l = location ∨ w.node? l = some node ∨
      (node = .directory ∧ ∃ q : Path, q.IsOnWay c.outputPath ∧ after.locate q = .ok l) := by
  by_cases hplace : l = location
  · exact .inl hplace
  · rcases hwritten.frame l hplace with hsame | ⟨-, hdirectory, q, hq, hlocate⟩
    · exact .inr (.inl (hsame ▸ h))
    · exact .inr (.inr ⟨Option.some.inj (h.symm.trans hdirectory), q, hq.of_parent, hlocate⟩)

theorem isInLimit_after (hwritten : WrittenAt c.outputPath content location w after)
    (hrepeat : Repeatable w c) (htop : after.locate c.schemaDirectory = .ok top)
    (hshort : ∀ directories, ∀ names ∈ w.below top directories,
      Workspace.isTooLong (c.schemaDirectory.join names) = false) :
    ∀ directories, ∀ names ∈ after.below top directories,
      Workspace.isTooLong (c.schemaDirectory.join names) = false := by
  intro directories names hnames
  obtain ⟨hne, node, hnode, -⟩ := Workspace.mem_below_iff.1 hnames
  have onTheWay : ∀ q : Path, q.IsOnWay c.outputPath → after.locate q = .ok (top ++ names) →
      Workspace.isTooLong (c.schemaDirectory.join names) = false := by
    intro q hq hlocate
    refine hrepeat.isInLimit q names hq ?_
    rw [← hwritten.current, ← Workspace.location_of_locate hlocate,
      ← Workspace.location_of_locate htop]
  rcases node_cases hwritten hnode with hplace | hbefore | ⟨-, q, hq, hlocate⟩
  · exact onTheWay c.outputPath c.outputPath.isOnWay_refl (hplace ▸ hwritten.locate)
  · exact hshort (node == .directory) names
      (Workspace.mem_below_iff.2 ⟨hne, node, hbefore, rfl⟩)
  · exact onTheWay q hq hlocate

theorem output_or_listed (hwritten : WrittenAt c.outputPath content location w after)
    (htop : after.locate c.schemaDirectory = .ok top)
    (hshort : Workspace.isTooLong (c.schemaDirectory.join names) = false)
    (hnames : names ∈ after.below top false) :
    after.locate (c.schemaDirectory.join names) = .ok location ∨ names ∈ w.below top false := by
  obtain ⟨hne, node, hnode, hkind⟩ := Workspace.mem_below_iff.1 hnames
  rcases node_cases hwritten hnode with hplace | hbefore | ⟨rfl, -⟩
  · left
    rw [← hplace]
    exact Workspace.locate_below htop (hplace ▸ hwritten.locate) hshort
  · exact .inr (Workspace.mem_below_iff.2 ⟨hne, node, hbefore, hkind⟩)
  · simp at hkind

theorem listed_again (hwritten : WrittenAt c.outputPath content location w after)
    (hnames : names ∈ w.below top false) : names ∈ after.below top false := by
  obtain ⟨hne, node, hnode, hkind⟩ := Workspace.mem_below_iff.1 hnames
  by_cases hplace : top ++ names = location
  · exact Workspace.mem_below_iff.2 ⟨hne, _, hplace ▸ hwritten.file, rfl⟩
  · rcases hwritten.frame _ hplace with hsame | ⟨habsent, -⟩
    · exact Workspace.mem_below_iff.2 ⟨hne, node, hsame ▸ hnode, hkind⟩
    · simp [habsent] at hnode

/-- The sources of a second run are those of the first one and, possibly, its output. -/
theorem listFiles_again (hwritten : WrittenAt c.outputPath content location w after)
    (hrepeat : Repeatable w c) (hdirectory : w.isDirectory c.schemaDirectory = true)
    (hfiles : w.listFiles c.schemaDirectory c.suffixes = .ok files) :
    ∃ files', after.listFiles c.schemaDirectory c.suffixes = .ok files' ∧
      files = files'.filter (fun p => p.location w.current ≠ location) ∧
      ∀ p ∈ files', p.location w.current = location → after.locate p = .ok location := by
  obtain ⟨top, hlocate, hnode⟩ := Workspace.isDirectory_iff.1 hdirectory
  have hfind := Workspace.find?_eq_some_iff.2 ⟨hlocate, hnode⟩
  have htop := hwritten.locate_again hlocate
  have hfind' := Workspace.find?_eq_some_iff.2 ⟨htop, hwritten.keeps top hnode⟩
  obtain ⟨hshort, hfiles'⟩ := (Workspace.listFiles_eq_ok_iff hfind).1 hfiles
  have hshort' := isInLimit_after hwritten hrepeat htop hshort
  have hlocation := Workspace.location_of_locate hwritten.locate
  rw [hwritten.current] at hlocation
  have hsource : ∀ names ∈ w.below top false,
      c.suffixes.contains (c.schemaDirectory.join names).suffix →
      (c.schemaDirectory.join names).location w.current ≠ location := by
    intro names hnames hsuffix
    rw [hlocation]
    refine hrepeat.isNoSource files hfiles _ ?_
    rw [hfiles']
    exact List.mem_filter.2 ⟨List.mem_map_of_mem hnames, hsuffix⟩
  refine ⟨_, (Workspace.listFiles_eq_ok_iff hfind').2 ⟨hshort', rfl⟩, ?_, ?_⟩
  · rw [hfiles', List.filter_map, List.filter_map, List.filter_map]
    refine congrArg _ (List.Perm.eq_of_pairwise (fun ps qs _ _ => Path.eq_of_not_precedes)
      ((Workspace.pairwise_below w top false).filter _)
      (((Workspace.pairwise_below after top false).filter _).filter _) ?_)
    refine (List.perm_ext_iff_of_nodup ((Workspace.nodup_below w top false).filter _)
      (((Workspace.nodup_below after top false).filter _).filter _)).2 fun names => ?_
    simp only [List.mem_filter, Function.comp_apply, decide_eq_true_eq]
    constructor
    · rintro ⟨hnames, hsuffix⟩
      exact ⟨⟨listed_again hwritten hnames, hsuffix⟩, hsource names hnames hsuffix⟩
    · rintro ⟨⟨hnames, hsuffix⟩, hne⟩
      rcases output_or_listed hwritten htop (hshort' false names hnames) hnames with houtput | hp
      · refine absurd (Workspace.location_of_locate houtput).symm ?_
        rwa [hwritten.current]
      · exact ⟨hp, hsuffix⟩
  · intro q hq heq
    obtain ⟨hq, hsuffix⟩ := List.mem_filter.1 hq
    obtain ⟨names, hnames, rfl⟩ := List.mem_map.1 hq
    rcases output_or_listed hwritten htop (hshort' false names hnames) hnames with houtput | hp
    · exact houtput
    · exact absurd heq (hsource names hp hsuffix)

end Listing

section Reading
variable {w after : Workspace} {c : Config} {content : List UInt8} {location : List String}
  {p : Path} {files : List Path} {g g' : TypeGraph}

theorem readBytes_again (hwritten : WrittenAt c.outputPath content location w after)
    {found : List UInt8} (hread : w.readBytes p = .ok found)
    (hne : p.location w.current ≠ location) : after.readBytes p = .ok found := by
  rw [Workspace.readBytes] at hread ⊢
  cases hlocate : w.locate p with
  | error kind => simp [hlocate] at hread
  | ok l =>
    obtain rfl := Workspace.location_of_locate hlocate
    rw [hwritten.locate_again hlocate]
    rw [hlocate] at hread
    rcases hwritten.frame _ hne with hsame | ⟨habsent, -⟩
    · simpa only [hsame] using hread
    · simp [habsent] at hread

theorem readFile_again (hwritten : WrittenAt c.outputPath content location w after)
    (hread : (readFile w g p).outcome = .ok g') (hne : p.location w.current ≠ location) :
    (readFile after g p).outcome = .ok g' := by
  have hoks := hread
  rw [readFile] at hoks
  obtain ⟨-, -, hoks⟩ := ReportOf.exists_of_bind hoks
  obtain ⟨text, htext, -⟩ := ReportOf.exists_of_bind hoks
  obtain ⟨found, hfound, -⟩ := map_eq_ok_iff.1 (mapError_eq_ok_iff.1 htext)
  have hsame : FileSystem.readText after p = FileSystem.readText w p :=
    congrArg (Except.map _) ((readBytes_again hwritten hfound hne).trans hfound.symm)
  rw [← hread, readFile, readFile, hsame]

/-- A document that is read as a source leaves the graph as it is. -/
theorem readFile_document {document : Json}
    (hwritten : WrittenAt c.outputPath document.render.toUTF8.toList location w after)
    (hp : after.locate p = .ok location) (g : TypeGraph) :
    (readFile after g p).outcome = .ok g := by
  have hbytes : FileSystem.readBytes after p = .ok document.render.toUTF8.toList := by
    simp only [FileSystem.readBytes, Workspace.readBytes, hp, hwritten.file]
  have hread : FileSystem.readText after p = .ok document.render.toList := by
    simp only [FileSystem.readText, hbytes, Except.map, Utf8.decode_toUTF8,
      unifyNewlines_eq_self (Json.undeclaring_render document).noReturn]
  have hfound := Json.descriptors_render document (some p.toString)
  obtain ⟨notices, hrun⟩ := TypeGraph.run_parse_of_ok g hfound
  rw [TypeGraph.readFile_of_parse hread hfound, TypeGraph.Step.apply, hrun]
  rfl

theorem readFiles_again {document : Json}
    (hwritten : WrittenAt c.outputPath document.render.toUTF8.toList location w after)
    (houtput : ∀ p ∈ files, p.location w.current = location → after.locate p = .ok location)
    {total : Nat} (total' : Nat)
    (hread : (readFiles w total g
      (files.filter fun p => p.location w.current ≠ location)).outcome = .ok g') :
    (readFiles after total' g files).outcome = .ok g' := by
  induction files generalizing g with
  | nil => exact hread
  | cons p files ih =>
    have hlater := fun g => ih (g := g) fun q hq => houtput q (List.mem_cons_of_mem p hq)
    by_cases hp : p.location w.current = location
    · rw [List.filter_cons_of_neg (by simpa using hp)] at hread
      have hdocument := readFile_document hwritten (houtput p List.mem_cons_self hp) g
      simp only [readFiles, ReportOf.outcome_bind, ReportOf.tell, hdocument, Except.bind]
      exact hlater _ hread
    · rw [List.filter_cons_of_pos (by simpa using hp), readFiles] at hread
      obtain ⟨-, -, hread⟩ := ReportOf.exists_of_bind hread
      obtain ⟨between, hfile, hread⟩ := ReportOf.exists_of_bind hread
      simp only [readFiles, ReportOf.outcome_bind, ReportOf.tell,
        readFile_again hwritten hfile hp, Except.bind]
      exact hlater _ hread

theorem scan_again {document : Json}
    (hwritten : WrittenAt c.outputPath document.render.toUTF8.toList location w after)
    (hrepeat : Repeatable w c) (h : (scan w c).outcome = .ok g) :
    (scan after c).outcome = .ok g := by
  obtain ⟨files, found, hthere, hfiles, hread, rfl⟩ := exists_of_scan h
  have hdirectory := Workspace.isDirectory_eq_ok_iff.1 hthere
  obtain ⟨files', hfiles', rfl, houtput⟩ := listFiles_again hwritten hrepeat hdirectory hfiles
  obtain ⟨top, hlocate, hnode⟩ := Workspace.isDirectory_iff.1 hdirectory
  have hagain : after.isDirectory c.schemaDirectory = true :=
    Workspace.isDirectory_iff.2 ⟨top, hwritten.locate_again hlocate, hwritten.keeps top hnode⟩
  exact TypeGraph.scan_of_readFiles (Workspace.isDirectory_eq_ok_iff.2 hagain) hfiles'
    (readFiles_again hwritten houtput _ hread)

end Reading

/-- What a run has written, the same run finds and writes again. It succeeds as before and changes
nothing, also where its output is now one of its sources: nothing in the text of a document,
whatever strings are in it, is taken for a declaration. -/
theorem generate_again {w : Workspace} {c : Config} {s : Summary}
    (h : (generate w c).2.outcome = .ok s) (hrepeat : Repeatable w c) :
    let after := (generate w c).1
    (generate after c).2.outcome = .ok s ∧ (generate after c).1 = after ∧
    (∃ content, after.readBytes c.outputPath = .ok content ∧
      (generate after c).1.readBytes c.outputPath = .ok content) ∧
    ∀ (document : Json) (origin : Option String),
      Source.scan document.render.toList origin = [] := by
  obtain ⟨text, hmade, hafter⟩ := exists_of_generate h
  obtain ⟨g, builder, notices, hg, -, rfl, -⟩ := document_ok hmade
  obtain ⟨location, hwritten⟩ := exists_writtenAt hafter
  generalize (generate w c).1 = after at hafter hwritten ⊢
  have hmade' : (document after c).outcome = (document w c).outcome := by
    simp only [document, ReportOf.outcome_bind, hg, scan_again hwritten hrepeat hg]
  have hagain : (generate after c).1 = after ∧ (generate after c).2.outcome = .ok s := by
    simp [generate, hmade', hmade, writeOutput_again hafter]
  have hbytes : after.readBytes c.outputPath =
      .ok (builder.document (rootOf c)).render.toUTF8.toList := by
    simp only [Workspace.readBytes, hwritten.locate, hwritten.file]
  exact ⟨hagain.2, hagain.1, ⟨_, hbytes, hagain.1.symm ▸ hbytes⟩, fun document =>
    Json.scan_of_undeclaring (Json.undeclaring_render document)⟩

def besideConfig : Config where
  schemaSubdirectory := "schema"
  outputPath := .relative ["schema", "output.kt"]

theorem generate_again_beside :
    ∃ s, (generate Command.onlyModule besideConfig).2.outcome = .ok s ∧
      ["output.kt"] ∈ (generate Command.onlyModule besideConfig).1.below ["schema"] false ∧
      (generate (generate Command.onlyModule besideConfig).1 besideConfig).2.outcome = .ok s := by
  have hrun : (generate Command.onlyModule besideConfig).2.outcome =
      .ok ⟨.relative ["schema", "output.kt"], "Module", 1, 0, 1⟩ := by decide +kernel
  have hfiles : Command.onlyModule.listFiles besideConfig.schemaDirectory besideConfig.suffixes =
      .ok [.relative ["schema", "Module.kt"]] := by decide +kernel
  have hrepeat : Repeatable Command.onlyModule besideConfig := by
    refine ⟨fun files h p hp => ?_, fun q rest hq hlocation => ?_⟩
    · obtain rfl := Except.ok.inj (hfiles.symm.trans h)
      obtain rfl := List.mem_singleton.1 hp
      decide
    · obtain ⟨parts, anchor⟩ := q
      obtain ⟨rfl, hparts⟩ := hq
      have hall : ∀ steps ∈ besideConfig.outputPath.parts.inits, Workspace.isTooLong
          (besideConfig.schemaDirectory.join (((Path.relative steps).location []).drop 1)) =
            false := by
        decide
      have hshort := hall parts ((List.mem_inits _ _).2 hparts)
      rw [show (Path.relative parts).location [] = _ from hlocation] at hshort
      exact hshort
  have hlisted :
      ["output.kt"] ∈ (generate Command.onlyModule besideConfig).1.below ["schema"] false := by
    obtain ⟨text, -, hafter⟩ := exists_of_generate hrun
    obtain ⟨location, hwritten⟩ := exists_writtenAt hafter
    have hlocation := Workspace.location_of_locate hwritten.locate
    rw [hwritten.current] at hlocation
    obtain rfl : location = ["schema", "output.kt"] := hlocation
    exact Workspace.mem_below_iff.2 ⟨by decide, _, hwritten.file, rfl⟩
  exact ⟨_, hrun, hlisted, (generate_again hrun hrepeat).1⟩

theorem not_generate_again {w : Workspace} {c : Config} {s : Summary} {rest : List String}
    (h : (generate w c).2.outcome = .ok s) (hne : rest ≠ [])
    (hlocation : c.outputPath.location w.current = c.schemaDirectory.location w.current ++ rest)
    (hlong : Workspace.isTooLong (c.schemaDirectory.join rest) = true) (s' : Summary) :
    (generate (generate w c).1 c).2.outcome ≠ .ok s' := by
  intro hagain
  obtain ⟨text, -, hafter⟩ := exists_of_generate h
  obtain ⟨location, hwritten⟩ := exists_writtenAt hafter
  obtain ⟨g, -, -, hscan, -⟩ := (wrote_of_ok Workspace.lawful_view hagain).schema
  obtain ⟨files, -, hthere, hfiles, -⟩ := exists_of_scan hscan
  obtain ⟨top, htop, hnode⟩ :=
    Workspace.isDirectory_iff.1 (Workspace.isDirectory_eq_ok_iff.1 hthere)
  have hfind := Workspace.find?_eq_some_iff.2 ⟨htop, hnode⟩
  have hplace : top ++ rest = location := by
    rw [Workspace.location_of_locate hwritten.locate, Workspace.location_of_locate htop,
      hwritten.current, hlocation]
  have hlisted : rest ∈ (generate w c).1.below top false :=
    Workspace.mem_below_iff.2 ⟨hne, _, hplace ▸ hwritten.file, rfl⟩
  have hshort := ((Workspace.listFiles_eq_ok_iff hfind).1 hfiles).1 false _ hlisted
  exact absurd hshort (by rw [hlong]; decide)

section Detours

def detours (n : Nat) : List String := (List.replicate n ["a", ".."]).flatten

theorem follow_detours {w : Workspace} {steps location : List String}
    (hnode : w.node? ["a"] = some .directory) (h : w.follow [] steps = .ok location) (n : Nat) :
    w.follow [] (detours n ++ steps) = .ok location := by
  induction n with
  | zero => exact h
  | succ n ih =>
    rw [detours, List.replicate_succ, List.flatten_cons, List.append_assoc]
    exact Workspace.follow_cons_iff.2 ⟨rfl, by decide,
      Workspace.follow_cons_iff.2 ⟨hnode, by decide, ih⟩⟩

theorem sum_detours (n : Nat) (rest : List String) :
    ((detours n ++ rest).map fun part => part.utf8ByteSize + 1).sum =
      5 * n + (rest.map fun part => part.utf8ByteSize + 1).sum := by
  induction n with
  | zero => simp [detours]
  | succ n ih =>
    have hround : (["a", ".."].map fun part => part.utf8ByteSize + 1).sum = 5 := by decide
    rw [detours, List.replicate_succ, List.flatten_cons, List.append_assoc, List.map_append,
      List.sum_append, ← detours, ih, hround]
    omega

def detour (n : Nat) : Path := .relative (detours n ++ ["a"])

def moduleText : String := "class Module : Base() \x7b\x7d"

def detoured : Workspace where
  nodes := .ofList [(["a"], .directory), (["a", "A.kt"], .file moduleText.toUTF8.toList)]

def detouredConfig (n : Nat) : Config where
  sourceDirectory := detour n
  schemaSubdirectory := "."
  outputPath := .relative ["a", "schema-of.kt"]

theorem schemaDirectory_detoured (n : Nat) : (detouredConfig n).schemaDirectory = detour n := by
  have hstay : Path.ofString "." = .relative [] := by decide
  rw [Config.schemaDirectory, show (detouredConfig n).schemaSubdirectory = "." from rfl, hstay]
  exact congrArg Path.relative (List.append_nil _)

theorem isTooLong_detour (n : Nat) (rest : List String) :
    Workspace.isTooLong ((detour n).join rest) = true ↔
      Workspace.pathLimit < 5 * n + 1 + (rest.map fun part => part.utf8ByteSize + 1).sum := by
  have hparts : ((detour n).join rest).parts ≠ [] := by simp [detour, Path.relative]
  have hsize := Path.utf8ByteSize_toString hparts rfl
  have ha : (["a"].map fun part => part.utf8ByteSize + 1).sum = 2 := by decide
  rw [Path.parts_join, show (detour n).parts = detours n ++ ["a"] from rfl, List.append_assoc,
    sum_detours, List.map_append, List.sum_append, ha] at hsize
  rw [Workspace.isTooLong, decide_eq_true_eq]
  omega

theorem writeOutput_detoured (text : String) :
    ∃ after, writeOutput detoured (.relative ["a", "schema-of.kt"]) text = (after, none) := by
  have hparent : detoured.isDirectory (.relative ["a"]) = true := by decide
  have hmade : FileSystem.makeDirectories detoured (Path.parent (.relative ["a", "schema-of.kt"])) =
      (detoured, none) := Workspace.makeDirectories_of_isDirectory hparent
  have hlocate : detoured.locate (.relative ["a", "schema-of.kt"]) = .ok ["a", "schema-of.kt"] := by
    decide
  have hnode : detoured.node? ["a", "schema-of.kt"] = none := by decide
  simp only [writeOutput, hmade, FileSystem.write, Workspace.writeBytes, hlocate, hnode]
  exact ⟨_, rfl⟩

-- The number of detours is left open, so that nothing has to go through all of them.
section Short
variable {n : Nat} (hn : n ≤ 817)
include hn

theorem not_isTooLong_detour {rest : List String}
    (hrest : (rest.map fun part => part.utf8ByteSize + 1).sum ≤ 5) :
    Workspace.isTooLong ((detour n).join rest) = false := by
  rw [← Bool.not_eq_true, isTooLong_detour, Workspace.pathLimit]
  omega

theorem locate_detour : detoured.locate (detour n) = .ok ["a"] := by
  refine Workspace.locate_iff.2 ⟨?_, ?_, ?_⟩
  · intro step hstep
    have hparts : step ∈ ["a", ".."] := by
      change step ∈ detours n ++ ["a"] at hstep
      simp only [detours, List.mem_append, List.mem_flatten, List.mem_replicate] at hstep
      rcases hstep with ⟨_, ⟨-, rfl⟩, hstep⟩ | hstep
      · exact hstep
      · exact List.mem_cons.2 (.inl (List.mem_singleton.1 hstep))
    have hnull : ∀ step ∈ ["a", ".."], '\x00' ∉ step.toList := by decide
    exact hnull step hparts
  · have hself : (detour n).join [] = detour n := congrArg Path.relative (List.append_nil _)
    rw [← hself]
    exact not_isTooLong_detour hn (by decide)
  · exact follow_detours (by decide) (by decide) n

theorem find?_detour : detoured.find? (detour n) = .ok (some (["a"], .directory)) :=
  Workspace.find?_eq_some_iff.2 ⟨locate_detour hn, by decide⟩

theorem isDirectory_detour : FileSystem.isDirectory detoured (detour n) = .ok true := by
  simp only [FileSystem.isDirectory, find?_detour hn]
  rfl

theorem listFiles_detoured :
    FileSystem.listFiles detoured (detour n) [".kt"] = .ok [(detour n).join ["A.kt"]] := by
  have hbelow : ∀ directories, detoured.below ["a"] directories =
      if directories then [] else [["A.kt"]] := by decide +kernel
  refine (Workspace.listFiles_eq_ok_iff (find?_detour hn)).2 ⟨fun directories names h => ?_, ?_⟩
  · rw [hbelow] at h
    cases directories with
    | true => simp at h
    | false =>
      obtain rfl := List.mem_singleton.1 h
      exact not_isTooLong_detour hn (by decide)
  · have hsuffix : ((detour n).join ["A.kt"]).suffix = ".kt" := by
      have hname : ((detour n).join ["A.kt"]).name = "A.kt" := by
        simp [Path.name]
      rw [Path.suffix, hname]
      decide
    rw [hbelow]
    simp [hsuffix]

theorem locate_source : detoured.locate ((detour n).join ["A.kt"]) = .ok ["a", "A.kt"] := by
  have hsource : detoured.locate (.relative ["a", "A.kt"]) = .ok (["a"] ++ ["A.kt"]) := by
    decide
  exact Workspace.locate_below (locate_detour hn) hsource (not_isTooLong_detour hn (by decide))

theorem readText_source :
    FileSystem.readText detoured ((detour n).join ["A.kt"]) = .ok moduleText.toList := by
  have hnode : detoured.node? ["a", "A.kt"] = some (.file moduleText.toUTF8.toList) := by
    simp [detoured, Workspace.node?, Table.ofList, Table.get?_insert]
  have hunified : unifyNewlines moduleText.toList = moduleText.toList :=
    unifyNewlines_eq_self (by decide)
  simp only [FileSystem.readText, FileSystem.readBytes, Workspace.readBytes, locate_source hn,
    hnode, Except.map, Utf8.decode_toUTF8, hunified]

def detouredGraph : TypeGraph :=
  .addAll .empty [.ofClass { name := "Module", parent := some "Base" }]

theorem readFile_source :
    (readFile detoured .empty ((detour n).join ["A.kt"])).outcome = .ok detouredGraph := by
  have hfound (origin : Option String) : descriptors moduleText.toList origin =
      .ok [.ofClass { name := "Module", parent := some "Base" }] := by with_unfolding_all rfl
  obtain ⟨notices, hrun⟩ := TypeGraph.run_parse_of_ok .empty (hfound _)
  rw [TypeGraph.readFile_of_parse (readText_source hn) (hfound _), TypeGraph.Step.apply, hrun]
  rfl

theorem scan_detoured :
    (scan detoured (detouredConfig n)).outcome = .ok detouredGraph.resolve := by
  have hdirectory :
      FileSystem.isDirectory detoured (detouredConfig n).schemaDirectory = .ok true := by
    rw [schemaDirectory_detoured]
    exact isDirectory_detour hn
  have hfiles : FileSystem.listFiles detoured (detouredConfig n).schemaDirectory
      (detouredConfig n).suffixes = .ok [(detour n).join ["A.kt"]] := by
    rw [schemaDirectory_detoured]
    exact listFiles_detoured hn
  refine TypeGraph.scan_of_readFiles hdirectory hfiles ?_
  simp only [readFiles, ReportOf.outcome_bind, ReportOf.tell, readFile_source hn, Except.bind]
  rfl

theorem document_detoured :
    ∃ made, (document detoured (detouredConfig n)).outcome = .ok made := by
  have hbuild : (Builder.build detouredGraph.resolve {}
      (SchemaKind.ofKeyword "module").1.rootType).toOption.isSome = true := by decide
  cases hbuilt : Builder.build detouredGraph.resolve {}
      (SchemaKind.ofKeyword "module").1.rootType with
  | error fault => simp [hbuilt, Except.toOption] at hbuild
  | ok built =>
    have hkind : (detouredConfig n).schemaType = "module" := rfl
    simp only [document, ReportOf.outcome_bind, scan_detoured hn, Except.bind, ReportOf.tell,
      ReportOf.ofExcept, hkind, hbuilt, Except.mapError]
    exact ⟨_, rfl⟩

theorem generate_detoured :
    ∃ s, (generate detoured (detouredConfig n)).2.outcome = .ok s := by
  obtain ⟨⟨text, s⟩, hmade⟩ := document_detoured hn
  obtain ⟨after, hafter⟩ := writeOutput_detoured text
  have houtput : (detouredConfig n).outputPath = .relative ["a", "schema-of.kt"] := rfl
  exact ⟨s, by simp only [generate, hmade, houtput, hafter]⟩

end Short

/-- With this many detours the source has a path that is not too long, and the output, which is none
of the sources, has one that is. -/
theorem not_generate_again_detoured :
    (∃ s, (generate detoured (detouredConfig 817)).2.outcome = .ok s) ∧
    (∀ files, detoured.listFiles (detouredConfig 817).schemaDirectory
        (detouredConfig 817).suffixes = .ok files →
      ∀ p ∈ files, p.location detoured.current ≠
        (detouredConfig 817).outputPath.location detoured.current) ∧
    ∀ s, (generate (generate detoured (detouredConfig 817)).1 (detouredConfig 817)).2.outcome ≠
      .ok s := by
  obtain ⟨s, hrun⟩ := generate_detoured (Nat.le_refl 817)
  refine ⟨⟨s, hrun⟩, fun files hfiles p hp => ?_, ?_⟩
  · rw [schemaDirectory_detoured] at hfiles
    obtain rfl := Except.ok.inj ((listFiles_detoured (Nat.le_refl 817)).symm.trans hfiles)
    obtain rfl := List.mem_singleton.1 hp
    rw [← Workspace.location_of_locate (locate_source (Nat.le_refl 817))]
    decide
  · have hlocation : (detouredConfig 817).outputPath.location detoured.current =
        (detouredConfig 817).schemaDirectory.location detoured.current ++ ["schema-of.kt"] := by
      rw [schemaDirectory_detoured,
        ← Workspace.location_of_locate (locate_detour (Nat.le_refl 817))]
      rfl
    refine not_generate_again hrun (by decide) hlocation ?_
    rw [schemaDirectory_detoured, isTooLong_detour]
    decide

end Detours

end KotlinSchema.Pipeline
