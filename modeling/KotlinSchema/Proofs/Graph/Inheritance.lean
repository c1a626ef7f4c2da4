import KotlinSchema.Model.Ancestry
import KotlinSchema.Proofs.FirstOccurrences

/-! Inheritance. The walk along the links to parents ends in every graph, and a name is declared by
the first class of the walk that has it. -/

namespace KotlinSchema

namespace TypeGraph

/-- The classes met on the way up from a link, with the names visited before. The way ends where
there is no parent, where the name was visited, and where the graph has no class of the name. -/
inductive Lineage (g : TypeGraph) : List String → Option String → List ClassType → Prop
  | root {visited} : Lineage g visited none []
  | revisited {visited name} : name ∈ visited → Lineage g visited (some name) []
  | dangling {visited name} : g.classes.get? name = none → Lineage g visited (some name) []
  | parent {visited name p rest} : name ∉ visited → g.classes.get? name = some p →
      Lineage g (name :: visited) p.parent rest → Lineage g visited (some name) (p :: rest)

section Chains
variable {g : TypeGraph} {p : ClassType} {visited : List String} {start : Option String}
  {chain rest : List ClassType} {name : String}

theorem lineage_ancestors (g : TypeGraph) (visited : List String) (start : Option String) :
    Lineage g visited start (g.ancestors visited start) := by
  induction visited, start using ancestors.induct g with
  | case1 visited => rw [ancestors]; exact .root
  | case2 visited name hseen => rw [ancestors, dif_pos hseen]; exact .revisited hseen
  | case3 visited name hseen hmissing =>
    rw [ancestors, dif_neg hseen]
    split
    · exact .dangling hmissing
    · simp_all
  | case4 visited name hseen p hparent ih =>
    rw [ancestors, dif_neg hseen]
    split
    · simp_all
    · rename_i q hq
      obtain rfl := Option.some.inj (hq.symm.trans hparent)
      exact .parent hseen hq ih

theorem Lineage.unique (h : Lineage g visited start chain) (hrest : Lineage g visited start rest) :
    chain = rest := by
  induction h generalizing rest with
  | root => cases hrest; rfl
  | revisited hseen =>
    cases hrest with
    | parent hfresh => exact absurd hseen hfresh
    | _ => rfl
  | dangling hmissing =>
    cases hrest with
    | parent _ hparent => simp_all
    | _ => rfl
  | parent hfresh hparent _ ih =>
    cases hrest with
    | revisited hseen => exact absurd hseen hfresh
    | dangling hmissing => simp_all
    | parent _ hparent' hrest =>
      obtain rfl := Option.some.inj (hparent.symm.trans hparent')
      rw [ih hrest]

theorem Lineage.closed (h : Lineage g visited start chain) {link : Option String}
    (hlink : link = start ∨ ∃ a ∈ chain, a.parent = link) (hname : link = some name)
    (hclass : g.classes.get? name = some p) : name ∈ visited ∨ p ∈ chain := by
  induction h generalizing link name p with
  | root => simp_all
  | revisited hseen => simp_all
  | dangling hmissing => simp_all
  | @parent visited parentName a rest hfresh hparent _ ih =>
    subst hname
    rcases hlink with hlink | ⟨b, hb, hlink⟩
    · obtain rfl := Option.some.inj hlink
      exact .inr (List.mem_cons.2 (.inl (Option.some.inj (hclass.symm.trans hparent))))
    · have hfound : name ∈ parentName :: visited ∨ p ∈ rest := by
        rcases List.mem_cons.1 hb with rfl | hb
        · exact ih (.inl rfl) hlink hclass
        · exact ih (.inr ⟨b, hb, rfl⟩) hlink hclass
      rcases hfound with hseen | hmem
      · rcases List.mem_cons.1 hseen with rfl | hseen
        · exact .inr (List.mem_cons.2 (.inl (Option.some.inj (hclass.symm.trans hparent))))
        · exact .inl hseen
      · exact .inr (List.mem_cons_of_mem _ hmem)

theorem Lineage.stays {S : ClassType → Prop} (h : Lineage g visited start chain)
    (hS : ∀ a, S a → ∀ name p, a.parent = some name → g.classes.get? name = some p → S p)
    (hstart : ∀ name p, start = some name → g.classes.get? name = some p → S p) :
    ∀ a ∈ chain, S a := by
  induction h with
  | parent _ hparent _ ih =>
    have hp := hstart _ _ rfl hparent
    intro a ha
    rcases List.mem_cons.1 ha with rfl | ha
    · exact hp
    · exact ih (hS _ hp) a ha
  | _ => simp

end Chains

section Properties
variable {g : TypeGraph} {c p : ClassType} {ps qs : List Property} {q : Property}
  {chain : List ClassType} {name : String}

theorem addInherited_eq (ps : List Property) (q : Property) :
    addInherited ps q = if q.name ∈ ps.map (·.name) then ps else ps ++ [q] := by
  simp [addInherited]

theorem foldl_addInherited (ps qs : List Property) :
    qs.foldl addInherited ps =
      ps ++ (qs.filter fun q => q.name ∉ ps.map (·.name)).eraseDupsBy
        fun a b => a.name == b.name := by
  induction qs generalizing ps with
  | nil => simp
  | cons q qs ih =>
    rw [List.foldl_cons, addInherited_eq, List.filter_cons]
    split
    · rename_i hdeclared
      rw [ih, if_neg (by simpa using hdeclared)]
    · rename_i hfresh
      rw [ih, if_pos (by simpa using hfresh), List.eraseDupsBy_cons, List.filter_filter,
        List.append_assoc, List.singleton_append]
      congr 3
      refine List.filter_congr fun b _ => ?_
      by_cases hb : b.name = q.name <;> simp [hb]

theorem find?_foldl_addInherited (ps qs : List Property) (name : String) :
    (qs.foldl addInherited ps).find? (·.name == name) = (ps ++ qs).find? (·.name == name) := by
  induction qs generalizing ps with
  | nil => simp
  | cons q qs ih =>
    rw [List.foldl_cons, ih, addInherited_eq]
    split
    · rename_i hdeclared
      obtain ⟨p, hp, hpq⟩ := List.mem_map.1 hdeclared
      by_cases hq : q.name = name
      · have hfound : (ps.find? (·.name == name)).isSome := by
          rw [List.find?_isSome]
          exact ⟨p, hp, by simp [hpq, hq]⟩
        rw [List.find?_append, List.find?_append, Option.or_of_isSome hfound,
          Option.or_of_isSome hfound]
      · rw [List.find?_append, List.find?_append, List.find?_cons_of_neg (by simpa using hq)]
    · rw [List.append_assoc, List.singleton_append]

/-- The nearest class that declares a name is the one it comes from. -/
theorem find?_effectiveProperties (hchain : Lineage g [c.name] c.parent chain) (name : String) :
    (g.effectiveProperties c).find? (·.name == name) =
      (c :: chain).findSome? fun a => a.properties.find? (·.name == name) := by
  rw [effectiveProperties, find?_foldl_addInherited, (lineage_ancestors g _ _).unique hchain,
    ← List.flatMap_cons, List.find?_flatMap]

theorem mem_names_effectiveProperties (hchain : Lineage g [c.name] c.parent chain) :
    name ∈ (g.effectiveProperties c).map (·.name) ↔
      ∃ a ∈ c :: chain, name ∈ a.properties.map (·.name) := by
  have hfound (ps : List Property) :
      name ∈ ps.map (·.name) ↔ (ps.find? (·.name == name)).isSome := by
    simp [List.find?_isSome]
  simp only [hfound, find?_effectiveProperties hchain, List.findSome?_isSome_iff]

theorem names_parent_subset (hchain : Lineage g [c.name] c.parent chain)
    (hclass : g.classes.get? c.name = some c) (hparent : c.parent = some name)
    (hp : g.classes.get? name = some p) :
    (g.effectiveProperties p).map (·.name) ⊆ (g.effectiveProperties c).map (·.name) := by
  have hclosed (a : ClassType) (ha : a ∈ c :: chain) (link : String) (q : ClassType)
      (hlink : a.parent = some link) (hq : g.classes.get? link = some q) : q ∈ c :: chain := by
    have hstart : a.parent = c.parent ∨ ∃ b ∈ chain, b.parent = a.parent :=
      (List.mem_cons.1 ha).imp (congrArg _) fun ha => ⟨a, ha, rfl⟩
    rcases hchain.closed hstart hlink hq with hseen | hmem
    · obtain rfl := List.mem_singleton.1 hseen
      exact List.mem_cons.2 (.inl (Option.some.inj (hq.symm.trans hclass)))
    · exact List.mem_cons_of_mem c hmem
  have hmem : p ∈ c :: chain := hclosed c List.mem_cons_self name p hparent hp
  have hway := lineage_ancestors g [p.name] p.parent
  have hstays := hway.stays hclosed (hclosed p hmem)
  intro k hk
  obtain ⟨a, ha, hka⟩ := (mem_names_effectiveProperties hway).1 hk
  refine (mem_names_effectiveProperties hchain).2 ⟨a, ?_, hka⟩
  rcases List.mem_cons.1 ha with rfl | ha
  · exact hmem
  · exact hstays a ha

theorem count_inherited (own inherited : List Property) (hown : name ∉ own.map (·.name))
    (hname : name ∈ (own ++ inherited.eraseDupsBy fun p q => p.name == q.name).map (·.name)) :
    ((own ++ inherited.eraseDupsBy fun p q => p.name == q.name).map (·.name)).count name = 1 := by
  have hnodup : ((inherited.eraseDupsBy fun p q => p.name == q.name).map (·.name)).Nodup :=
    List.pairwise_map.2 ((pairwise_eraseDupsBy inherited).imp
      fun h => (by simpa using h : _ ≠ _).symm)
  rw [List.map_append] at hname ⊢
  rw [List.count_append, List.count_eq_zero_of_not_mem hown, Nat.zero_add]
  exact List.count_eq_one_of_mem hnodup ((List.mem_append.1 hname).resolve_left hown)

/-- In every graph the way up from a class ends. The class has its own properties, then of those of
the classes on the way the first of every name that it does not have itself. So a name comes from the
nearest class that declares it and an inherited one is there once. A class of the graph lacks no name
that its parent has, not even where the links to parents run in a circle. -/
theorem effectiveProperties_of_lineage (g : TypeGraph) (c : ClassType) :
    (∃! chain, Lineage g [c.name] c.parent chain) ∧
    ∀ chain, Lineage g [c.name] c.parent chain →
      g.effectiveProperties c = c.properties ++
        ((chain.flatMap (·.properties)).filter fun p =>
          p.name ∉ c.properties.map (·.name)).eraseDupsBy (fun p q => p.name == q.name) ∧
      (∀ name, (g.effectiveProperties c).find? (·.name == name) =
        (c :: chain).findSome? fun a => a.properties.find? (·.name == name)) ∧
      (∀ name ∈ (g.effectiveProperties c).map (·.name), name ∉ c.properties.map (·.name) →
        ((g.effectiveProperties c).map (·.name)).count name = 1) ∧
      (g.classes.get? c.name = some c → ∀ parentName p, c.parent = some parentName →
        g.classes.get? parentName = some p →
        (g.effectiveProperties p).map (·.name) ⊆ (g.effectiveProperties c).map (·.name)) := by
  have hway := lineage_ancestors g [c.name] c.parent
  refine ⟨⟨_, hway, fun _ hchain => hchain.unique hway⟩, fun chain hchain => ?_⟩
  have hproperties : g.effectiveProperties c = c.properties ++
      ((chain.flatMap (·.properties)).filter fun p =>
        p.name ∉ c.properties.map (·.name)).eraseDupsBy (fun p q => p.name == q.name) := by
    rw [effectiveProperties, hway.unique hchain, foldl_addInherited]
  refine ⟨hproperties, find?_effectiveProperties hchain, fun name hname hown => ?_,
    fun hclass _ _ hparent hp => names_parent_subset hchain hclass hparent hp⟩
  rw [hproperties] at hname ⊢
  exact count_inherited _ _ hown hname

def circularLeaf : ClassType where
  name := "Leaf"
  properties := [{ name := "id", typeName := "Int" }]
  parent := some "Middle"

def circularMiddle : ClassType where
  name := "Middle"
  properties := [{ name := "level", typeName := "Int" }, { name := "id", typeName := "String" }]
  parent := some "Top"

def circularTop : ClassType where
  name := "Top"
  properties := [{ name := "kind", typeName := "Kind" }, { name := "level", typeName := "Kind" }]
  parent := some "Leaf"

def circularGraph : TypeGraph :=
  TypeGraph.empty.addAll [.ofClass circularLeaf, .ofClass circularMiddle, .ofClass circularTop]

theorem effectiveProperties_of_lineage_circularGraph :
    Lineage circularGraph [circularLeaf.name] circularLeaf.parent [circularMiddle, circularTop] ∧
    circularGraph.classes.get? circularLeaf.name = some circularLeaf ∧
    circularGraph.classes.get? "Middle" = some circularMiddle ∧
    circularGraph.effectiveProperties circularLeaf =
      [{ name := "id", typeName := "Int" }, { name := "level", typeName := "Int" },
        { name := "kind", typeName := "Kind" }] ∧
    ("kind" ∈ (circularGraph.effectiveProperties circularLeaf).map (·.name) ∧
      "kind" ∉ circularLeaf.properties.map (·.name)) ∧
    ((circularGraph.effectiveProperties circularLeaf).map (·.name)).count "kind" = 1 ∧
    (circularGraph.effectiveProperties circularMiddle).map (·.name) ⊆
      (circularGraph.effectiveProperties circularLeaf).map (·.name) := by
  have hleaf : circularGraph.classes.get? circularLeaf.name = some circularLeaf := by decide
  have hmiddle : circularGraph.classes.get? "Middle" = some circularMiddle := by decide
  have htop : circularGraph.classes.get? "Top" = some circularTop := by decide
  have hway : Lineage circularGraph [circularLeaf.name] circularLeaf.parent
      [circularMiddle, circularTop] :=
    .parent (by decide) hmiddle (.parent (by decide) htop (.revisited (by decide)))
  obtain ⟨hproperties, -, hcount, hsubset⟩ :=
    (effectiveProperties_of_lineage circularGraph circularLeaf).2 _ hway
  have hall : circularGraph.effectiveProperties circularLeaf =
      [{ name := "id", typeName := "Int" }, { name := "level", typeName := "Int" },
        { name := "kind", typeName := "Kind" }] := by
    rw [hproperties]
    rfl
  have hkind : "kind" ∈ (circularGraph.effectiveProperties circularLeaf).map (·.name) := by
    rw [hall]
    decide
  exact ⟨hway, hleaf, hmiddle, hall, ⟨hkind, by decide⟩, hcount _ hkind (by decide),
    hsubset hleaf _ _ rfl hmiddle⟩

end Properties

end TypeGraph

end KotlinSchema
