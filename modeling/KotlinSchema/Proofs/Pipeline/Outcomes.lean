import KotlinSchema.Pipeline
import KotlinSchema.Proofs.Except
import KotlinSchema.Proofs.FileSystem.View

/-! What a pipeline leaves behind on any file system that does what it is asked for. One that fails
before it writes changes nothing, and one that succeeds has written the schema of what it found. -/

namespace KotlinSchema

theorem ReportOf.exists_of_bind {φ α β : Type} {r : ReportOf φ α} {f : α → ReportOf φ β} {b : β}
    (h : (r >>= f).outcome = .ok b) : ∃ a, r.outcome = .ok a ∧ (f a).outcome = .ok b := by
  rw [outcome_bind] at h
  cases hr : r.outcome with
  | error e => simp [hr, Except.bind] at h
  | ok a =>
    rw [hr] at h
    exact ⟨a, rfl, h⟩

namespace Pipeline
variable {σ φ π : Type} [FileSystem σ φ] {view : View σ π} {s after : σ} {c : Config}
  {made : Summary} {p : Path} {text : String} {fault : φ} {e : FailureOf φ}

def rootOf (c : Config) : String := (SchemaKind.ofKeyword c.schemaType).1.rootType

section Documents

theorem exists_of_scan {g : TypeGraph} (h : (scan s c).outcome = .ok g) :
    ∃ files found, FileSystem.isDirectory s c.schemaDirectory = .ok true ∧
      FileSystem.listFiles s c.schemaDirectory c.suffixes = .ok files ∧
      (readFiles s files.length .empty files).outcome = .ok found ∧ g = found.resolve := by
  rw [scan] at h
  obtain ⟨isThere, hthere, h⟩ := ReportOf.exists_of_bind h
  cases isThere with
  | false => simp [ReportOf.ofExcept] at h
  | true =>
    rw [if_pos rfl] at h
    obtain ⟨files, hfiles, h⟩ := ReportOf.exists_of_bind h
    obtain ⟨-, -, h⟩ := ReportOf.exists_of_bind h
    obtain ⟨found, hfound, h⟩ := ReportOf.exists_of_bind h
    obtain ⟨-, -, h⟩ := ReportOf.exists_of_bind h
    obtain ⟨-, -, h⟩ := ReportOf.exists_of_bind h
    exact ⟨files, found, mapError_eq_ok_iff.1 hthere, mapError_eq_ok_iff.1 hfiles, hfound,
      (Except.ok.inj h).symm⟩

theorem document_ok (h : (document s c).outcome = .ok (text, made)) :
    ∃ g builder notices, (scan s c).outcome = .ok g ∧
      Builder.build g {} (rootOf c) = .ok (builder, notices) ∧
      text = (builder.document (rootOf c)).render ∧
      made.definitionCount = builder.definitions.size := by
  rw [document] at h
  obtain ⟨g, hg, h⟩ := ReportOf.exists_of_bind h
  obtain ⟨-, -, h⟩ := ReportOf.exists_of_bind h
  obtain ⟨⟨builder, notices⟩, hbuild, h⟩ := ReportOf.exists_of_bind h
  obtain ⟨-, -, h⟩ := ReportOf.exists_of_bind h
  obtain ⟨rfl, rfl⟩ := Prod.mk.inj (Except.ok.inj h)
  exact ⟨g, builder, notices, hg, mapError_eq_ok_iff.1 hbuild, rfl, rfl⟩

end Documents

section Outputs

/-- The output stands where its path leads, and nothing else has changed but that directories
missing on the way there were made. -/
structure Written (view : View σ π) (p : Path) (content : List UInt8) (before after : σ) :
    Prop where
  exists_leads : ∃ place, view.Leads after p place
  file : ∀ place, view.Leads after p place → view.node? after place = some (.file content)
  leads : ∀ q place, view.Leads before q place → view.Leads after q place
  keeps : ∀ place, view.node? before place = some .directory →
    view.node? after place = some .directory
  frame : ∀ place, ¬view.Leads after p place → view.node? after place = view.node? before place ∨
    (view.node? before place = none ∧ view.node? after place = some .directory ∧
      ∃ q : Path, q.IsOnWay p.parent ∧ view.Leads after q place)

theorem exists_of_writeOutput (h : writeOutput s p text = (after, none)) :
    ∃ between, FileSystem.makeDirectories s p.parent = (between, none) ∧
      FileSystem.write between p text.toUTF8.toList = .done after := by
  rw [writeOutput] at h
  split at h
  · simp at h
  · rename_i between hmade
    split at h
    · rename_i after' hwrite
      obtain ⟨rfl, -⟩ := Prod.mk.inj h
      exact ⟨between, hmade, hwrite⟩
    · simp at h
    · simp at h

theorem written_of_writeOutput (hview : view.Lawful) (h : writeOutput s p text = (after, none)) :
    Written view p text.toUTF8.toList s after := by
  obtain ⟨between, hmade, hwrite⟩ := exists_of_writeOutput h
  have hway := hview.makesWay s p.parent
  rw [hmade] at hway
  have hfills := hview.fills between p _ after hwrite
  constructor
  · exact hfills.exists_leads
  · exact hfills.file
  · exact fun q place hq => hfills.leads q place (hway.leads q place hq)
  · intro place hplace
    have hbetween := hway.keeps place _ hplace
    rwa [hfills.frame place fun hp => hfills.no_directory place hp hbetween]
  · intro place hplace
    rw [hfills.frame place hplace]
    cases hbefore : view.node? s place with
    | some node => exact .inl (hway.keeps place node hbefore)
    | none =>
      cases hbetween : view.node? between place with
      | none => exact .inl rfl
      | some node =>
        obtain ⟨rfl, q, hq, hleads⟩ := hway.adds place node hbefore hbetween
        exact .inr ⟨rfl, rfl, q, hq, hfills.leads q place hleads⟩

end Outputs

section Runs

/-- A run has written the schema of the graph that was found before it, and has changed nothing but
the file and the directories that were missing on the way to it. -/
structure Wrote (view : View σ π) (before : σ) (c : Config) (made : Summary) (after : σ) :
    Prop where
  exists_leads : ∃ place, view.Leads after c.outputPath place
  schema : ∃ g builder notices, (scan before c).outcome = .ok g ∧
    Builder.build g {} (rootOf c) = .ok (builder, notices) ∧
    (∀ place, view.Leads after c.outputPath place → view.node? after place =
      some (.file (builder.document (rootOf c)).render.toUTF8.toList)) ∧
    ∃ definitions, (builder.document (rootOf c)).field? "$defs" = some (.obj definitions) ∧
      (definitions.map Prod.fst).Nodup ∧ made.definitionCount = definitions.length
  frame : ∀ place, ¬view.Leads after c.outputPath place →
    view.node? after place = view.node? before place ∨
    (view.node? before place = none ∧ view.node? after place = some .directory ∧
      ∃ q : Path, q.IsOnWay c.outputPath.parent ∧ view.Leads after q place)

theorem generate_cases (s : σ) (c : Config) :
    (∃ e, (generate s c).1 = s ∧ (generate s c).2.outcome = .error e) ∨
    ∃ text made, (document s c).outcome = .ok (text, made) ∧
      ((∃ after fault, writeOutput s c.outputPath text = (after, some fault) ∧
          (generate s c).1 = after ∧ (generate s c).2.outcome = .error (.file fault)) ∨
        ∃ after, writeOutput s c.outputPath text = (after, none) ∧
          (generate s c).1 = after ∧ (generate s c).2.outcome = .ok made) := by
  cases hdocument : (document s c).outcome with
  | error e => exact .inl ⟨e, by simp [generate, hdocument]⟩
  | ok found =>
    obtain ⟨text, made⟩ := found
    refine .inr ⟨text, made, rfl, ?_⟩
    cases hwrite : writeOutput s c.outputPath text with
    | mk after fault =>
      cases fault with
      | some fault => exact .inl ⟨after, fault, rfl, by simp [generate, hdocument, hwrite]⟩
      | none => exact .inr ⟨after, rfl, by simp [generate, hdocument, hwrite]⟩

theorem exists_of_generate (h : (generate s c).2.outcome = .ok made) :
    ∃ text, (document s c).outcome = .ok (text, made) ∧
      writeOutput s c.outputPath text = ((generate s c).1, none) := by
  rcases generate_cases s c with ⟨e, -, hout⟩ | ⟨text, made', hdocument, hwrite⟩
  · simp [h] at hout
  · rcases hwrite with ⟨after, fault, -, -, hout⟩ | ⟨after, hafter, hs, hout⟩
    · simp [h] at hout
    · obtain rfl : made = made' := Except.ok.inj (h.symm.trans hout)
      exact ⟨text, hdocument, hs ▸ hafter⟩

theorem wrote_of_ok (hview : view.Lawful) (h : (generate s c).2.outcome = .ok made) :
    Wrote view s c made (generate s c).1 := by
  obtain ⟨text, hdocument, hafter⟩ := exists_of_generate h
  obtain ⟨g, builder, notices, hg, hbuild, rfl, hcount⟩ := document_ok hdocument
  have hwritten := written_of_writeOutput hview hafter
  refine ⟨hwritten.exists_leads, ⟨g, builder, notices, hg, hbuild, hwritten.file, _, rfl, ?_, ?_⟩,
    hwritten.frame⟩
  · rw [List.map_map]
    exact builder.definitions.nodup
  · rw [hcount, List.length_map, Table.size]

end Runs

end Pipeline

end KotlinSchema
