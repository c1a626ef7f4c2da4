import KotlinSchema.Model.Table
import KotlinSchema.Proofs.FirstOccurrences

/-! What tables hold, and in which order. -/

namespace KotlinSchema.Table

section Members
variable {κ α : Type} [DecidableEq κ] {k : κ} {a : α} {p : κ × α}

theorem mem_insert {t : Table κ α} (h : p ∈ (t.insert k a).entries) :
    p = (k, a) ∨ p ∈ t.entries := mem_insertPair h

theorem insertPair_insertPair (k : κ) (a : α) (ps : List (κ × α)) :
    insertPair k a (insertPair k a ps) = insertPair k a ps := by
  induction ps with
  | nil => simp [insertPair]
  | cons q ps ih =>
    by_cases hq : q.1 = k
    · simp [insertPair, hq]
    · simp [insertPair, hq, ih]

theorem insert_insert (t : Table κ α) (k : κ) (a : α) :
    (t.insert k a).insert k a = t.insert k a := Table.ext (insertPair_insertPair k a t.entries)

theorem mem_ofList {ps : List (κ × α)} (h : p ∈ (ofList ps).entries) : p ∈ ps := by
  have hfold : ∀ t : Table κ α, p ∈ (ps.foldl (fun t p => t.insert p.1 p.2) t).entries →
      p ∈ t.entries ∨ p ∈ ps := by
    clear h
    induction ps with
    | nil => exact fun t => .inl
    | cons q ps ih =>
      intro t ht
      rcases ih _ ht with ht | ht
      · rcases mem_insert ht with rfl | ht
        · exact .inr List.mem_cons_self
        · exact .inl ht
      · exact .inr (List.mem_cons_of_mem q ht)
  exact (hfold .empty h).resolve_left (by simp [empty])

theorem get?_of_mem {t : Table κ α} (h : p ∈ t.entries) : t.get? p.1 = some p.2 := by
  obtain ⟨ps, hnodup⟩ := t
  simp only [get?] at h ⊢
  induction ps with
  | nil => simp at h
  | cons q ps ih =>
    rw [List.map_cons, List.nodup_cons] at hnodup
    rcases List.mem_cons.1 h with rfl | h
    · simp
    · have hne : q.1 ≠ p.1 := fun hq => hnodup.1 (hq ▸ List.mem_map_of_mem h)
      simpa [hne] using ih hnodup.2 h

theorem mem_of_get? {t : Table κ α} (h : t.get? k = some a) : (k, a) ∈ t.entries := by
  obtain ⟨⟨k', a'⟩, hfind, rfl⟩ := Option.map_eq_some_iff.1 h
  obtain rfl : k' = k := by simpa using List.find?_some hfind
  exact List.mem_of_find?_eq_some hfind

theorem ext_get? {t u : Table κ α} (hkeys : t.keys = u.keys) (hget : ∀ k, t.get? k = u.get? k) :
    t = u := by
  have hentries : ∀ t : Table κ α,
      t.entries = t.keys.filterMap fun k => (t.get? k).map fun a => (k, a) := by
    intro t
    rw [keys, List.filterMap_map]
    calc t.entries
      _ = t.entries.filterMap some := (List.filterMap_some).symm
      _ = _ := List.filterMap_congr fun p hp => by simp [get?_of_mem hp]
  ext1
  rw [hentries t, hentries u, hkeys]
  exact List.filterMap_congr fun k _ => by rw [hget]

theorem eq_iff_map_get? {β : Type} {f : α → β} (hf : Function.Injective f) {t u : Table κ α} :
    t = u ↔ t.keys = u.keys ∧ ∀ k, (t.get? k).map f = (u.get? k).map f := by
  constructor
  · rintro rfl
    exact ⟨rfl, fun _ => rfl⟩
  · rintro ⟨hkeys, hget⟩
    exact ext_get? hkeys fun k => Option.map_injective hf (hget k)

end Members

section Mapped
variable {κ α β : Type}

theorem mapValues_mapValues {γ : Type} (f : κ → α → β) (g : κ → β → γ) (t : Table κ α) :
    (t.mapValues f).mapValues g = t.mapValues fun k a => g k (f k a) := by
  ext1
  simp [mapValues]

variable [DecidableEq κ]

theorem get?_mapValues (f : κ → α → β) (t : Table κ α) (k : κ) :
    (t.mapValues f).get? k = (t.get? k).map (f k) := by
  have hkey : ∀ p ∈ t.entries.find? fun p => p.1 = k, p.1 = k := fun p hp => by
    simpa using List.find?_some hp
  simp only [get?, mapValues, List.find?_map, Option.map_map, Function.comp_def]
  cases hp : t.entries.find? fun p => p.1 = k with
  | none => rfl
  | some p => simp [hkey p hp]

theorem mapValues_insert (f : κ → α → β) (t : Table κ α) (k : κ) (a : α) :
    (t.insert k a).mapValues f = (t.mapValues f).insert k (f k a) := by
  refine ext_get? ?_ fun k' => ?_
  · simp only [keys_mapValues, keys_insert]
  · simp only [get?_mapValues, get?_insert]
    split
    · rename_i hk
      rw [hk, Option.map_some]
    · rfl

end Mapped

section Series
variable {κ α : Type} [DecidableEq κ] {k : κ} {a : α} {t u : Table κ α}

theorem get?_eq_some_iff : t.get? k = some a ↔ (k, a) ∈ t.entries :=
  ⟨mem_of_get?, get?_of_mem⟩

theorem get?_perm (h : t.entries.Perm u.entries) (k : κ) : t.get? k = u.get? k :=
  Option.ext fun a => by rw [get?_eq_some_iff, get?_eq_some_iff, h.mem_iff]

theorem keys_ofList (ps : List (κ × α)) : (ofList ps).keys = (ps.map Prod.fst).eraseDups := by
  have hfold : ∀ t : Table κ α, (ps.foldl (fun t p => t.insert p.1 p.2) t).keys =
      (t.keys ++ ps.map Prod.fst).eraseDups := by
    induction ps with
    | nil =>
      intro t
      rw [List.map_nil, List.append_nil, eraseDups_of_nodup t.keys_nodup, List.foldl_nil]
    | cons p ps ih =>
      intro t
      rw [List.foldl_cons, ih, keys_insert, eraseDups_insert_append, List.map_cons]
  exact hfold empty

theorem insertPair_of_not_mem {ps : List (κ × α)} (h : k ∉ ps.map Prod.fst) (a : α) :
    insertPair k a ps = ps ++ [(k, a)] := by
  induction ps with
  | nil => rfl
  | cons p ps ih =>
    rw [List.map_cons, List.mem_cons, not_or] at h
    rw [insertPair, if_neg (Ne.symm h.1), ih h.2, List.cons_append]

theorem entries_foldl_insert {β : Type} (key : β → κ) {value : β → α} {bs : List β}
    (hnodup : (bs.map key).Nodup) (hfresh : ∀ b ∈ bs, key b ∉ t.keys) :
    (bs.foldl (fun t b => t.insert (key b) (value b)) t).entries =
      t.entries ++ bs.map fun b => (key b, value b) := by
  induction bs generalizing t with
  | nil => simp
  | cons b bs ih =>
    obtain ⟨hb, hbs⟩ := List.nodup_cons.1 hnodup
    obtain ⟨hkey, hrest⟩ := List.forall_mem_cons.1 hfresh
    have hentries : (t.insert (key b) (value b)).entries = t.entries ++ [(key b, value b)] :=
      insertPair_of_not_mem hkey (value b)
    have hother : ∀ b' ∈ bs, key b' ∉ (t.insert (key b) (value b)).keys := by
      intro b' hb'
      rw [keys_insert, if_neg hkey, List.mem_append, List.mem_singleton, not_or]
      exact ⟨hrest b' hb', fun he => hb (List.mem_map.2 ⟨b', hb', he⟩)⟩
    rw [List.foldl_cons, ih hbs hother, hentries, List.append_assoc]
    rfl

theorem entries_ofList {ps : List (κ × α)} (h : (ps.map Prod.fst).Nodup) :
    (ofList ps).entries = ps := by
  have hentries : (ofList ps).entries = [] ++ ps.map fun p => (p.1, p.2) :=
    entries_foldl_insert Prod.fst h (by simp)
  simpa using hentries

end Series

end KotlinSchema.Table
