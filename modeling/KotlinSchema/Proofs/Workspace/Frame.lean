import KotlinSchema.Proofs.FileSystem.View
import KotlinSchema.Proofs.Model.Tables

/-! What making directories and writing a file leave as it is. A path that leads somewhere passes
through directories only, so it goes on leading there as long as no directory is lost. Done once
more, neither changes anything. -/

namespace KotlinSchema.Workspace

section Paths
variable {w w' : Workspace} {location : List String} {n : Node} {p : Path}

theorem node?_insert (h : w.node? location ≠ some .directory) (other : List String) :
    ({ w with nodes := w.nodes.insert location n } : Workspace).node? other =
      if other = location then some n else w.node? other := by
  have hroot : location ≠ [] := fun hnil => h (by rw [node?, if_pos hnil])
  by_cases ho : other = []
  · subst ho
    rw [node?, if_pos rfl, if_neg (Ne.symm hroot), node?, if_pos rfl]
  · rw [node?, if_neg ho, Table.get?_insert, node?, if_neg ho]

theorem follow_of_keeps (h : ∀ l, w.node? l = some .directory → w'.node? l = some .directory)
    {start : List String} {steps : List String} (hfollow : w.follow start steps = .ok location) :
    w'.follow start steps = .ok location := by
  induction steps generalizing start with
  | nil => exact hfollow
  | cons step steps ih =>
    rw [follow] at hfollow ⊢
    cases hnode : w.node? start with
    | none => simp [hnode] at hfollow
    | some node =>
      cases node with
      | file content => simp [hnode] at hfollow
      | directory =>
        simp only [hnode] at hfollow
        simp only [h start hnode]
        split at hfollow
        · simp at hfollow
        · rename_i hlength
          rw [if_neg hlength]
          exact ih hfollow

theorem locate_of_keeps (hcurrent : w'.current = w.current)
    (h : ∀ l, w.node? l = some .directory → w'.node? l = some .directory)
    (hlocate : w.locate p = .ok location) : w'.locate p = .ok location := by
  have hsteps : w'.steps p.anchor p.parts = w.steps p.anchor p.parts := by
    rw [steps, steps, hcurrent]
  rw [locate, followText] at hlocate ⊢
  rw [hsteps]
  split at hlocate
  · simp at hlocate
  · split at hlocate
    · simp at hlocate
    · rename_i hnull hlength
      rw [if_neg hnull, if_neg hlength]
      exact follow_of_keeps h hlocate

theorem find?_eq_some_iff :
    w.find? p = .ok (some (location, n)) ↔
      w.locate p = .ok location ∧ w.node? location = some n := by
  rw [find?]
  cases w.locate p with
  | ok l =>
    simp only [Except.ok.injEq, Option.map_eq_some_iff, Prod.mk.injEq]
    grind
  | error kind => cases kind <;> simp

theorem isDirectory_iff : w.isDirectory p = true ↔
    ∃ location, w.locate p = .ok location ∧ w.node? location = some .directory := by
  simp only [← find?_eq_some_iff, isDirectory]
  split <;> simp_all

theorem isDirectory_eq_ok_iff :
    FileSystem.isDirectory w p = .ok true ↔ w.isDirectory p = true := by
  simp only [FileSystem.isDirectory, isDirectory]
  cases w.find? p with
  | error fault => simp [Except.map]
  | ok found =>
    rcases found with _ | ⟨_, _ | _⟩
    · simp [Except.map]
    · simp [Except.map]
    · simp [Except.map]

end Paths

/-- What stands at each location, which a path leads to by its steps. -/
def view : View Workspace (List String) where
  node? := node?
  Leads w p location := w.locate p = .ok location

section Directories
variable {w after : Workspace} {p : Path}

theorem exists_of_makeDirectory (h : w.makeDirectory p = .ok after) :
    ∃ location, w.locate p = .ok location ∧ w.node? location = none ∧
      after = { w with nodes := w.nodes.insert location .directory } := by
  unfold makeDirectory at h
  split at h
  · simp at h
  · rename_i location hlocate
    split at h
    · simp at h
    · rename_i habsent
      exact ⟨location, hlocate, habsent, (Except.ok.inj h).symm⟩

theorem current_makeDirectory (h : w.makeDirectory p = .ok after) : after.current = w.current := by
  obtain ⟨location, -, -, rfl⟩ := exists_of_makeDirectory h
  rfl

theorem node?_makeDirectory (h : w.makeDirectory p = .ok after) :
    ∃ location, w.locate p = .ok location ∧ w.node? location = none ∧
      ∀ l, after.node? l = if l = location then some .directory else w.node? l := by
  obtain ⟨location, hlocate, habsent, rfl⟩ := exists_of_makeDirectory h
  exact ⟨location, hlocate, habsent, node?_insert (by simp [habsent])⟩

theorem makesWay_makeDirectory (h : w.makeDirectory p = .ok after) : view.MakesWay p w after := by
  obtain ⟨location, hlocate, habsent, hnode⟩ := node?_makeDirectory h
  have hkeeps : ∀ l node, w.node? l = some node → after.node? l = some node := by
    intro l node hl
    rw [hnode, if_neg (by rintro rfl; simp [habsent] at hl), hl]
  have hleads : ∀ q l, w.locate q = .ok l → after.locate q = .ok l := fun q l =>
    locate_of_keeps (current_makeDirectory h) fun l => hkeeps l .directory
  refine ⟨hleads, hkeeps, fun l node hl hl' => ?_⟩
  change after.node? l = some node at hl'
  rw [hnode] at hl'
  split at hl'
  · rename_i hlocation
    subst hlocation
    exact ⟨(Option.some.inj hl').symm, p, p.isOnWay_refl, hleads p l hlocate⟩
  · exact absurd (hl.symm.trans hl') (by simp)

/-- Whether or not it comes to an end, making directories only adds directories on the way. -/
theorem makesWay_makeDirectories (w : Workspace) (p : Path) :
    view.MakesWay p w (w.makeDirectories p).1 := by
  fun_induction makeDirectories w p with
  | case1 p after hmade => exact makesWay_makeDirectory hmade
  | case2 p fault _ _ after fault' hparents ih =>
    rw [hparents] at ih
    exact ih.of_parent
  | case3 p fault _ _ between hparents after hmade ih =>
    rw [hparents] at ih
    exact ih.of_parent.trans (makesWay_makeDirectory hmade)
  | case4 p fault _ _ between hparents fault' hmade ih =>
    rw [hparents] at ih
    exact ih.of_parent
  | case5 p fault => exact .refl w

theorem current_makeDirectories (w : Workspace) (p : Path) :
    (w.makeDirectories p).1.current = w.current := by
  fun_induction makeDirectories w p with
  | case1 p after hmade => exact current_makeDirectory hmade
  | case2 p fault _ _ after fault' hparents ih =>
    rw [hparents] at ih
    exact ih
  | case3 p fault _ _ between hparents after hmade ih =>
    rw [hparents] at ih
    exact (current_makeDirectory hmade).trans ih
  | case4 p fault _ _ between hparents fault' hmade ih =>
    rw [hparents] at ih
    exact ih
  | case5 p fault => rfl

theorem isDirectory_of_makeDirectory (h : w.makeDirectory p = .ok after) :
    after.isDirectory p = true := by
  obtain ⟨location, hlocate, -, hnode⟩ := node?_makeDirectory h
  exact isDirectory_iff.2 ⟨location, (makesWay_makeDirectory h).leads p location hlocate,
    by rw [hnode, if_pos rfl]⟩

theorem isDirectory_of_makeDirectories (h : w.makeDirectories p = (after, none)) :
    after.isDirectory p = true := by
  fun_induction makeDirectories w p with
  | case1 p between hmade =>
    obtain rfl := (Prod.mk.inj h).1
    exact isDirectory_of_makeDirectory hmade
  | case2 p fault _ _ between fault' hparents ih => simp at h
  | case3 p fault _ _ between hparents between' hmade ih =>
    obtain rfl := (Prod.mk.inj h).1
    exact isDirectory_of_makeDirectory hmade
  | case4 p fault _ _ between hparents fault' hmade ih =>
    obtain ⟨rfl, hfault⟩ := Prod.mk.inj h
    simpa using hfault
  | case5 p fault =>
    obtain ⟨rfl, hfault⟩ := Prod.mk.inj h
    simpa using hfault

theorem makeDirectories_of_isDirectory (h : w.isDirectory p = true) :
    w.makeDirectories p = (w, none) := by
  obtain ⟨location, hlocate, hnode⟩ := isDirectory_iff.1 h
  have hmade : w.makeDirectory p = .error ⟨.alreadyExists, p⟩ := by
    simp [makeDirectory, hlocate, hnode]
  rw [makeDirectories, hmade]
  simp [h]

end Directories

section Files
variable {w after : Workspace} {p : Path} {content : List UInt8}

theorem exists_of_writeBytes (h : w.writeBytes p content = .ok after) :
    ∃ location, w.locate p = .ok location ∧ w.node? location ≠ some .directory ∧
      after = { w with nodes := w.nodes.insert location (.file content) } := by
  unfold writeBytes at h
  split at h
  · simp at h
  · rename_i location hlocate
    split at h
    · simp at h
    · rename_i hplace
      exact ⟨location, hlocate, hplace, (Except.ok.inj h).symm⟩

theorem current_writeBytes (h : w.writeBytes p content = .ok after) :
    after.current = w.current := by
  obtain ⟨location, -, -, rfl⟩ := exists_of_writeBytes h
  rfl

theorem fills_writeBytes (h : w.writeBytes p content = .ok after) :
    view.Fills p content w after := by
  obtain ⟨location, hlocate, hplace, hafter⟩ := exists_of_writeBytes h
  have hnode : ∀ l, after.node? l = if l = location then some (.file content) else w.node? l :=
    hafter ▸ node?_insert hplace
  have hleads : ∀ q l, w.locate q = .ok l → after.locate q = .ok l := fun q l =>
    locate_of_keeps (current_writeBytes h) fun l hl => by
      rw [hnode, if_neg (by rintro rfl; exact hplace hl), hl]
  have hself : ∀ l, after.locate p = .ok l → l = location := fun l hl =>
    Except.ok.inj (hl.symm.trans (hleads p location hlocate))
  refine ⟨⟨hleads, fun l hl => ?_⟩, ⟨location, hleads p location hlocate⟩, fun l hl => ?_,
    fun l hl => ?_⟩
  · exact (hnode l).trans (if_neg (by rintro rfl; exact hl (hleads p l hlocate)))
  · exact (hnode l).trans (if_pos (hself l hl))
  · exact hself l hl ▸ hplace

theorem writeBytes_again (h : w.writeBytes p content = .ok after) :
    after.writeBytes p content = .ok after := by
  obtain ⟨location, hlocate, -, rfl⟩ := exists_of_writeBytes h
  have hagain := (fills_writeBytes h).leads p location hlocate
  have hfile := (fills_writeBytes h).file location hagain
  simp only [view] at hagain hfile
  simp only [writeBytes, hagain, hfile, Table.insert_insert]

theorem write_eq_done_iff : FileSystem.write w p content = .done after ↔
    w.writeBytes p content = .ok after := by
  simp only [FileSystem.write]
  split <;> simp_all

theorem write_ne_brokenOff (w : Workspace) (fault : FileFault) :
    FileSystem.write w p content ≠ .brokenOff after fault := by
  simp only [FileSystem.write]
  split <;> simp

/-- A workspace does what it is asked for. -/
theorem lawful_view : view.Lawful where
  makesWay := makesWay_makeDirectories
  fills _ _ _ _ h := fills_writeBytes (write_eq_done_iff.1 h)
  spares w _ _ _ fault h := absurd h (write_ne_brokenOff w fault)

end Files

end KotlinSchema.Workspace
