import KotlinSchema.Proofs.Workspace.Frame
import Mathlib.Algebra.GroupWithZero.Nat

/-! Where paths lead. A location is worked out from the steps of a path alone; that all directories
on the way are there decides only whether it is reached. A location that is reached can be reached
without detours. -/

namespace KotlinSchema

namespace Path
variable {p : Path}

/-- The location that a path leads to, from a current directory, where all directories on its way
are there. -/
def location (current : List String) (p : Path) : List String :=
  ((⟨current, .empty⟩ : Workspace).steps p.anchor p.parts).foldl Workspace.advance []

theorem utf8ByteSize_intercalate (x : String) (parts : List String) :
    ("/".intercalate (x :: parts)).utf8ByteSize + 1 =
      ((x :: parts).map fun part => part.utf8ByteSize + 1).sum := by
  induction parts generalizing x with
  | nil => simp
  | cons y parts ih =>
    rw [String.intercalate_cons_cons, String.utf8ByteSize_append, String.utf8ByteSize_append,
      List.map_cons, List.sum_cons, ← ih]
    have hslash : "/".utf8ByteSize = 1 := rfl
    omega

theorem utf8ByteSize_toString (h : p.parts ≠ []) (hcurrent : p.anchor = .current) :
    p.toString.utf8ByteSize + 1 = (p.parts.map fun part => part.utf8ByteSize + 1).sum := by
  obtain ⟨parts, anchor⟩ := p
  obtain rfl := hcurrent
  cases parts with
  | nil => exact absurd rfl h
  | cons x parts =>
    rw [toString, if_neg (by simp [relative]), Anchor.text, String.empty_append]
    exact utf8ByteSize_intercalate x parts

end Path

namespace Workspace
variable {w : Workspace} {p q : Path} {start location : List String} {x : String}

theorem follow_cons_iff {step : String} {steps : List String} :
    w.follow start (step :: steps) = .ok location ↔ w.node? start = some .directory ∧
      step.utf8ByteSize ≤ nameLimit ∧ w.follow (advance start step) steps = .ok location := by
  rw [follow]
  cases w.node? start with
  | none => simp
  | some node =>
    cases node with
    | file content => simp
    | directory =>
      by_cases hlength : nameLimit < step.utf8ByteSize
      · simp [hlength, Nat.not_le.2 hlength]
      · simp [hlength, Nat.not_lt.1 hlength]

theorem follow_append_iff {steps steps' : List String} :
    w.follow start (steps ++ steps') = .ok location ↔
      ∃ between, w.follow start steps = .ok between ∧
        w.follow between steps' = .ok location := by
  induction steps generalizing start with
  | nil => simp [follow]
  | cons step steps ih =>
    rw [List.cons_append, follow_cons_iff, ih]
    simp only [follow_cons_iff]
    grind

theorem eq_foldl_of_follow {steps : List String} (h : w.follow start steps = .ok location) :
    location = steps.foldl advance start := by
  induction steps generalizing start with
  | nil => exact (Except.ok.inj h).symm
  | cons step steps ih => exact ih (follow_cons_iff.1 h).2.2

theorem mem_advance {step : String} (h : x ∈ advance start step) : x ∈ start ∨ x = step := by
  unfold advance at h
  split_ifs at h
  · exact .inl ((List.dropLast_sublist start).subset h)
  · exact .inl h
  · simpa using h

theorem mem_foldl_advance {steps : List String} (h : x ∈ steps.foldl advance start) :
    x ∈ start ∨ x ∈ steps := by
  induction steps generalizing start with
  | nil => exact .inl h
  | cons step steps ih =>
    rcases ih h with h | h
    · rcases mem_advance h with h | rfl
      · exact .inl h
      · exact .inr List.mem_cons_self
    · exact .inr (List.mem_cons_of_mem step h)

theorem steps_join (w : Workspace) (p : Path) (names : List String) :
    w.steps (p.join names).anchor (p.join names).parts = w.steps p.anchor p.parts ++ names := by
  unfold steps
  rw [Path.anchor_join, Path.parts_join]
  split
  · exact (List.append_assoc ..).symm
  · rfl

theorem locate_iff : w.locate p = .ok location ↔
    (∀ step ∈ w.steps p.anchor p.parts, '\x00' ∉ step.toList) ∧ isTooLong p = false ∧
      w.follow [] (w.steps p.anchor p.parts) = .ok location := by
  have hnull : ((w.steps p.anchor p.parts).any fun step => step.toList.contains '\x00') = true ↔
      ¬∀ step ∈ w.steps p.anchor p.parts, '\x00' ∉ step.toList := by
    simp
  rw [locate, followText, isTooLong]
  split_ifs with hany hlong
  · simp [hnull.1 hany]
  · simp [hlong]
  · simpa [hlong] using fun _ => Decidable.not_not.1 fun h => hany (hnull.2 h)

theorem location_of_locate (h : w.locate p = .ok location) :
    location = p.location w.current := eq_foldl_of_follow (locate_iff.1 h).2.2

/-- A location and all on the way to it are reached by their own steps. -/
def Open (w : Workspace) (location : List String) : Prop :=
  ∀ earlier, earlier <+: location → w.follow [] earlier = .ok earlier

theorem open_advance {step : String} (h : w.Open start) (hnode : w.node? start = some .directory)
    (hlength : step.utf8ByteSize ≤ nameLimit) : w.Open (advance start step) := by
  rw [advance]
  split_ifs with hup hstay
  · exact fun earlier hearlier => h earlier (hearlier.trans (List.dropLast_prefix start))
  · exact h
  · intro earlier hearlier
    rcases List.prefix_concat_iff.1 hearlier with rfl | hearlier
    · refine follow_append_iff.2 ⟨start, h start (List.prefix_refl _), follow_cons_iff.2 ?_⟩
      exact ⟨hnode, hlength, by rw [advance, if_neg hup, if_neg hstay, follow]⟩
    · exact h earlier hearlier

theorem open_of_follow {steps : List String} (h : w.Open start)
    (hfollow : w.follow start steps = .ok location) : w.Open location := by
  induction steps generalizing start with
  | nil =>
    obtain rfl := Except.ok.inj hfollow
    exact h
  | cons step steps ih =>
    obtain ⟨hnode, hlength, hfollow⟩ := follow_cons_iff.1 hfollow
    exact ih (open_advance h hnode hlength) hfollow

/-- What a path leads to below a directory is also reached from that directory on, by a path that is
not too long. -/
theorem locate_below {directory : Path} {top rest : List String}
    (hdirectory : w.locate directory = .ok top) (hp : w.locate p = .ok (top ++ rest))
    (hlong : isTooLong (directory.join rest) = false) :
    w.locate (directory.join rest) = .ok (top ++ rest) := by
  obtain ⟨hnull, -, hfollow⟩ := locate_iff.1 hdirectory
  obtain ⟨hnull', -, hfollow'⟩ := locate_iff.1 hp
  refine locate_iff.2 ⟨?_, hlong, ?_⟩
  · rw [steps_join]
    intro step hstep
    rcases List.mem_append.1 hstep with hstep | hstep
    · exact hnull step hstep
    · have hlocation : step ∈ (w.steps p.anchor p.parts).foldl advance [] := by
        rw [← eq_foldl_of_follow hfollow']
        exact List.mem_append_right _ hstep
      exact hnull' step ((mem_foldl_advance hlocation).resolve_left (by simp))
  · rw [steps_join]
    have hstart : w.Open [] := by
      intro earlier hearlier
      rw [List.prefix_nil.1 hearlier, follow]
    have hopen : w.Open (top ++ rest) := open_of_follow hstart hfollow'
    obtain ⟨between, hbetween, hrest⟩ :=
      follow_append_iff.1 (hopen (top ++ rest) (List.prefix_refl _))
    obtain rfl : top = between :=
      Except.ok.inj ((hopen top (List.prefix_append _ _)).symm.trans hbetween)
    exact follow_append_iff.2 ⟨top, hfollow, hrest⟩

end Workspace

end KotlinSchema
