/-! Tables from keys to values that keep the order in which keys were first inserted. Inserting at a
key that is present replaces its value and keeps its position. -/

namespace KotlinSchema

def insertPair {κ α : Type} [DecidableEq κ] (k : κ) (a : α) : List (κ × α) → List (κ × α)
  | [] => [(k, a)]
  | p :: rest => if p.1 = k then (k, a) :: rest else p :: insertPair k a rest

theorem map_fst_insertPair {κ α : Type} [DecidableEq κ] (k : κ) (a : α) (ps : List (κ × α)) :
    (insertPair k a ps).map Prod.fst =
      if k ∈ ps.map Prod.fst then ps.map Prod.fst else ps.map Prod.fst ++ [k] := by
  induction ps with
  | nil => simp [insertPair]
  | cons p rest ih =>
    rw [insertPair]
    by_cases hp : p.1 = k
    · simp [hp]
    · rw [if_neg hp, List.map_cons, List.map_cons, ih]
      by_cases hk : k ∈ rest.map Prod.fst <;> simp [hk, Ne.symm hp]

theorem mem_insertPair {κ α : Type} [DecidableEq κ] {k : κ} {a : α} {p : κ × α}
    {ps : List (κ × α)} (h : p ∈ insertPair k a ps) : p = (k, a) ∨ p ∈ ps := by
  induction ps with
  | nil => simpa [insertPair] using h
  | cons q ps ih =>
    rw [insertPair] at h
    split at h
    · rcases List.mem_cons.1 h with h | h
      · exact .inl h
      · exact .inr (List.mem_cons_of_mem q h)
    · rcases List.mem_cons.1 h with rfl | h
      · exact .inr List.mem_cons_self
      · exact (ih h).imp_right (List.mem_cons_of_mem q)

structure Table (κ α : Type) where
  entries : List (κ × α)
  nodup : (entries.map Prod.fst).Nodup
  deriving DecidableEq

namespace Table

section Views
variable {κ α β : Type}

def empty : Table κ α := ⟨[], by simp⟩

instance : Inhabited (Table κ α) := ⟨empty⟩

def keys (t : Table κ α) : List κ := t.entries.map Prod.fst

def values (t : Table κ α) : List α := t.entries.map Prod.snd

def size (t : Table κ α) : Nat := t.entries.length

def mapValues (f : κ → α → β) (t : Table κ α) : Table κ β where
  entries := t.entries.map fun p => (p.1, f p.1 p.2)
  nodup := by
    have h : (t.entries.map fun p => (p.1, f p.1 p.2)).map Prod.fst = t.entries.map Prod.fst := by
      simp
    rw [h]
    exact t.nodup

@[ext] theorem ext {t u : Table κ α} (h : t.entries = u.entries) : t = u := by
  cases t
  cases u
  cases h
  rfl

@[simp] theorem keys_empty : (empty : Table κ α).keys = [] := rfl

@[simp] theorem keys_mapValues (f : κ → α → β) (t : Table κ α) :
    (t.mapValues f).keys = t.keys := by
  simp [keys, mapValues]

theorem keys_nodup (t : Table κ α) : t.keys.Nodup := t.nodup

/-- What is under each key stands under the name that it has itself. -/
def IsNamed (name : α → κ) (t : Table κ α) : Prop := ∀ p ∈ t.entries, p.1 = name p.2

theorem isNamed_empty (name : α → κ) : (empty : Table κ α).IsNamed name := by
  simp [IsNamed, empty]

theorem IsNamed.mapValues {name : α → κ} {t : Table κ α} (h : t.IsNamed name) {f : κ → α → α}
    (hf : ∀ k a, name (f k a) = name a) : (t.mapValues f).IsNamed name := by
  intro p hp
  obtain ⟨q, hq, rfl⟩ := List.mem_map.1 hp
  rw [hf, ← h q hq]

end Views

section Access
variable {κ α : Type} [DecidableEq κ]

def get? (t : Table κ α) (k : κ) : Option α :=
  (t.entries.find? fun p => p.1 = k).map Prod.snd

def contains (t : Table κ α) (k : κ) : Bool := (t.get? k).isSome

def insert (t : Table κ α) (k : κ) (a : α) : Table κ α where
  entries := insertPair k a t.entries
  nodup := by
    rw [map_fst_insertPair]
    split
    · exact t.nodup
    · rename_i h
      rw [List.nodup_append]
      refine ⟨t.nodup, by simp, fun x hx y hy => ?_⟩
      rintro rfl
      exact h (by rwa [← List.mem_singleton.1 hy])

def erase (t : Table κ α) (k : κ) : Table κ α where
  entries := t.entries.filter fun p => p.1 ≠ k
  nodup := t.nodup.sublist (List.filter_sublist.map Prod.fst)

def ofList (ps : List (κ × α)) : Table κ α := ps.foldl (fun t p => t.insert p.1 p.2) empty

theorem IsNamed.insert {name : α → κ} {t : Table κ α} (h : t.IsNamed name) (a : α) :
    (t.insert (name a) a).IsNamed name := by
  intro p hp
  rcases mem_insertPair hp with rfl | hp
  · rfl
  · exact h p hp

theorem keys_insert (t : Table κ α) (k : κ) (a : α) :
    (t.insert k a).keys = if k ∈ t.keys then t.keys else t.keys ++ [k] :=
  map_fst_insertPair k a t.entries

theorem contains_iff (t : Table κ α) (k : κ) : t.contains k = true ↔ k ∈ t.keys := by
  simp [contains, get?, keys]

theorem get?_insert (t : Table κ α) (k k' : κ) (a : α) :
    (t.insert k a).get? k' = if k' = k then some a else t.get? k' := by
  obtain ⟨ps, _⟩ := t
  simp only [get?, insert]
  induction ps with
  | nil => by_cases h : k = k' <;> simp [insertPair, h, eq_comm]
  | cons p rest ih =>
    rw [insertPair]
    by_cases hp : p.1 = k
    · rw [if_pos hp]
      by_cases h : k = k'
      · simp [h]
      · simp [hp, h, Ne.symm h]
    · rw [if_neg hp]
      by_cases h : p.1 = k'
      · simp [h, show ¬ k' = k from h ▸ hp]
      · simp_all

end Access

end Table

end KotlinSchema
