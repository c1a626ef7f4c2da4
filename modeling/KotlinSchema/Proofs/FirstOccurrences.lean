import Mathlib.Data.List.Nodup

/-! Lists of which only the first element of each kind is kept. -/

namespace KotlinSchema
variable {α : Type} {r : α → α → Bool} {a : α}

theorem mem_of_mem_eraseDupsBy : ∀ {l : List α}, a ∈ l.eraseDupsBy r → a ∈ l
  | [], h => h
  | b :: l, h => by
    have hlength : (l.filter fun c => !r c b).length < l.length + 1 :=
      Nat.lt_succ_of_le (List.length_filter_le _ _)
    rw [List.eraseDupsBy_cons, List.mem_cons] at h
    rcases h with rfl | h
    · exact List.mem_cons_self
    · exact List.mem_cons_of_mem b (List.mem_filter.1 (mem_of_mem_eraseDupsBy h)).1
termination_by l => l.length

theorem pairwise_eraseDupsBy : ∀ l : List α, (l.eraseDupsBy r).Pairwise fun a b => r b a = false
  | [] => .nil
  | b :: l => by
    have hlength : (l.filter fun c => !r c b).length < l.length + 1 :=
      Nat.lt_succ_of_le (List.length_filter_le _ _)
    rw [List.eraseDupsBy_cons]
    refine .cons (fun c hc => ?_) (pairwise_eraseDupsBy _)
    simpa using (List.mem_filter.1 (mem_of_mem_eraseDupsBy hc)).2
termination_by l => l.length

theorem eraseDupsBy_of_pairwise {l : List α} (h : l.Pairwise fun a b => r b a = false) :
    l.eraseDupsBy r = l := by
  induction l with
  | nil => rfl
  | cons a l ih =>
    obtain ⟨ha, hl⟩ := List.pairwise_cons.1 h
    rw [List.eraseDupsBy_cons, List.filter_eq_self.2 fun b hb => by simp [ha b hb], ih hl]

section Distinct
variable [DecidableEq α] {l ls : List α}

theorem nodup_eraseDups (l : List α) : l.eraseDups.Nodup :=
  (pairwise_eraseDupsBy l).imp fun h => Ne.symm (by simpa using h)

theorem eraseDups_of_nodup (h : l.Nodup) : l.eraseDups = l :=
  eraseDupsBy_of_pairwise (h.imp fun hne => by simpa using Ne.symm hne)

theorem eraseDups_append_cons (h : a ∈ ls) (l : List α) :
    (ls ++ a :: l).eraseDups = (ls ++ l).eraseDups := by
  simp [List.eraseDups_append, List.removeAll, h]

theorem eraseDups_insert_append (a : α) (ls l : List α) :
    ((if a ∈ ls then ls else ls ++ [a]) ++ l).eraseDups = (ls ++ a :: l).eraseDups := by
  split
  · exact (eraseDups_append_cons ‹_› l).symm
  · rw [List.append_assoc, List.singleton_append]

theorem eraseDups_append_of_subset (h : l ⊆ ls) : (ls ++ l).eraseDups = ls.eraseDups := by
  induction l with
  | nil => rw [List.append_nil]
  | cons a l ih =>
    rw [eraseDups_append_cons (h List.mem_cons_self), ih (List.subset_of_cons_subset h)]

end Distinct

end KotlinSchema
