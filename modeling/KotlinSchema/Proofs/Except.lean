import Mathlib.Data.List.Forall2

/-! Results that may be a fault, and traversals of lists that stop at the first fault. -/

namespace KotlinSchema
variable {α β ε : Type} {f : α → Except ε β} {a : α} {l : List α}

theorem map_eq_error_iff {x : Except ε α} {g : α → β} {e : ε} :
    x.map g = .error e ↔ x = .error e := by
  cases x <;> simp [Except.map]

theorem map_eq_ok_iff {x : Except ε α} {g : α → β} {b : β} :
    x.map g = .ok b ↔ ∃ a, x = .ok a ∧ g a = b := by
  cases x <;> simp [Except.map]

theorem mapError_eq_ok_iff {ε' : Type} {x : Except ε α} {g : ε → ε'} :
    x.mapError g = .ok a ↔ x = .ok a := by
  cases x <;> simp [Except.mapError]

theorem mapM_cons_error {e : ε} (h : f a = .error e) : (a :: l).mapM f = .error e := by
  rw [List.mapM_cons, h]
  rfl

theorem mapM_cons_ok {b : β} (h : f a = .ok b) : (a :: l).mapM f = (l.mapM f).map (b :: ·) := by
  rw [List.mapM_cons, h]
  cases hl : l.mapM f <;> simp [bind, Except.bind, pure, Except.pure, Except.map]

theorem mapM_congr {f' : α → Except ε β} (h : ∀ a ∈ l, f a = f' a) : l.mapM f = l.mapM f' := by
  induction l with
  | nil => rfl
  | cons a l ih =>
    rw [List.mapM_cons, List.mapM_cons, h a List.mem_cons_self,
      ih fun b hb => h b (List.mem_cons_of_mem a hb)]

theorem forall₂_of_mapM {bs : List β} (h : l.mapM f = .ok bs) :
    List.Forall₂ (fun a b => f a = .ok b) l bs := by
  induction l generalizing bs with
  | nil =>
    obtain rfl : [] = bs := Except.ok.inj h
    exact .nil
  | cons a l ih =>
    cases ha : f a with
    | error e => simp [mapM_cons_error ha] at h
    | ok b =>
      rw [mapM_cons_ok ha, map_eq_ok_iff] at h
      obtain ⟨rest, hrest, rfl⟩ := h
      exact .cons ha (ih hrest)

theorem exists_of_forall₂ {R : α → β → Prop} {bs : List β} (h : List.Forall₂ R l bs)
    (ha : a ∈ l) : ∃ b ∈ bs, R a b := by
  induction h with
  | nil => simp at ha
  | @cons c b l bs hcb _ ih =>
    rcases List.mem_cons.1 ha with rfl | ha
    · exact ⟨b, List.mem_cons_self, hcb⟩
    · obtain ⟨b', hb', hab'⟩ := ih ha
      exact ⟨b', List.mem_cons_of_mem b hb', hab'⟩

theorem mapM_eq_error {e : ε} (h : l.mapM f = .error e) :
    ∃ before a after, l = before ++ a :: after ∧ (∀ b ∈ before, ∃ c, f b = .ok c) ∧
      f a = .error e := by
  induction l with
  | nil => simp [pure, Except.pure] at h
  | cons a l ih =>
    cases ha : f a with
    | error e' =>
      obtain rfl : e' = e := by simpa [mapM_cons_error ha] using h
      exact ⟨[], a, l, rfl, by simp, ha⟩
    | ok b =>
      rw [mapM_cons_ok ha, map_eq_error_iff] at h
      obtain ⟨before, a', after, rfl, hbefore, ha'⟩ := ih h
      refine ⟨a :: before, a', after, rfl, ?_, ha'⟩
      intro c hc
      rcases List.mem_cons.1 hc with rfl | hc
      · exact ⟨b, ha⟩
      · exact hbefore c hc

end KotlinSchema
