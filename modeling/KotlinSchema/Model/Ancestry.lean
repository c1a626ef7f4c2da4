import KotlinSchema.Model.Graph

/-! The chain of a class's ancestors and the properties it inherits from them. -/

namespace KotlinSchema

def unseen (keys seen : List String) : List String := keys.filter fun k => !decide (k ∈ seen)

theorem length_unseen_lt {keys seen seen' : List String} {k : String} (hk : k ∈ keys)
    (hn : k ∉ seen) (hs : ∀ x ∈ seen, x ∈ seen') (hk' : k ∈ seen') :
    (unseen keys seen').length < (unseen keys seen).length := by
  have hsub : ∀ ks : List String, (unseen ks seen').length ≤ (unseen ks seen).length := by
    intro ks
    induction ks with
    | nil => simp [unseen]
    | cons x xs ih =>
      simp only [unseen, List.filter_cons] at ih ⊢
      by_cases hx : x ∈ seen
      · simpa [hx, hs x hx] using ih
      · by_cases hx' : x ∈ seen' <;> simp [hx, hx'] <;> omega
  induction keys with
  | nil => simp at hk
  | cons x xs ih =>
    have hle := hsub xs
    simp only [unseen, List.filter_cons] at ih hle ⊢
    by_cases hxk : x = k
    · subst hxk
      simp [hn, hk']
      omega
    · have hlt := ih ((List.mem_cons.1 hk).resolve_left (Ne.symm hxk))
      by_cases hx : x ∈ seen
      · simpa [hx, hs x hx] using hlt
      · by_cases hx' : x ∈ seen' <;> simp [hx, hx'] <;> omega

theorem Table.mem_keys_of_get? {α : Type} {t : Table String α} {k : String} {a : α}
    (h : t.get? k = some a) : k ∈ t.keys :=
  (t.contains_iff k).1 (by simp [Table.contains, h])

namespace TypeGraph

/-- The classes on the chain of parents, up to a parent that is missing or was visited before. -/
def ancestors (g : TypeGraph) (visited : List String) : Option String → List ClassType
  | none => []
  | some name =>
    if _hv : name ∈ visited then []
    else match _hg : g.classes.get? name with
      | none => []
      | some parent => parent :: g.ancestors (name :: visited) parent.parent
termination_by (unseen g.classes.keys visited).length
decreasing_by
  exact length_unseen_lt (Table.mem_keys_of_get? _hg) _hv (fun x hx => List.mem_cons_of_mem _ hx)
    List.mem_cons_self

/-- Properties with one more at the end, unless one of its name is there. -/
def addInherited (ps : List Property) (q : Property) : List Property :=
  if ps.any fun p => p.name == q.name then ps else ps ++ [q]

/-- The properties of a class followed by those it inherits; the closest declaration of a name
wins. -/
def effectiveProperties (g : TypeGraph) (c : ClassType) : List Property :=
  ((g.ancestors [c.name] c.parent).flatMap (·.properties)).foldl addInherited c.properties

end TypeGraph

end KotlinSchema
