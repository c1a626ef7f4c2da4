import KotlinSchema.Proofs.Builder.Memo
import KotlinSchema.Proofs.Model.Tables

/-! Definitions of classes without variants. Such a definition has a member for each visible property
and a pattern for each that may carry a qualifier; neither patterns nor names are lost, since no two
names have the same pattern and no inherited property repeats a name. -/

namespace KotlinSchema

section Names
variable {ps : List Property}

theorem nodup_addInherited (h : (ps.map (·.name)).Nodup) (q : Property) :
    ((TypeGraph.addInherited ps q).map (·.name)).Nodup := by
  rw [TypeGraph.addInherited]
  split
  · exact h
  · rename_i hfresh
    rw [List.map_append, List.map_singleton, List.nodup_append]
    refine ⟨h, List.nodup_singleton _, fun name hname name' hname' => ?_⟩
    obtain rfl := List.mem_singleton.1 hname'
    rintro rfl
    obtain ⟨p, hp, hpq⟩ := List.mem_map.1 hname
    exact hfresh (List.any_eq_true.2 ⟨p, hp, by simpa using hpq⟩)

theorem nodup_effectiveProperties (g : TypeGraph) {c : ClassType}
    (h : (c.properties.map (·.name)).Nodup) :
    ((g.effectiveProperties c).map (·.name)).Nodup := by
  rw [TypeGraph.effectiveProperties]
  generalize (g.ancestors [c.name] c.parent).flatMap (·.properties) = inherited
  generalize c.properties = ps at h ⊢
  induction inherited generalizing ps with
  | nil => exact h
  | cons q inherited ih => exact ih _ (nodup_addInherited h q)

end Names

section Patterns
open Schema

theorem pattern_ne_of_marked {name name' : String} (h : "test-".toList <+: name.toList) :
    "^" ++ name ++ "(@.+)?$" ≠ "^(test-)?" ++ name' ++ "(@.+)?$" := by
  intro heq
  obtain ⟨rest, hrest⟩ := h
  have hlist := congrArg String.toList heq
  simp only [String.toList_append, ← hrest] at hlist
  exact absurd hlist (by simp)

theorem modifierPattern_injective : Function.Injective modifierPattern := by
  intro name name' h
  unfold modifierPattern at h
  -- Two names of one kind lie between the same texts; two of different kinds never do.
  by_cases hname : "test-".toList.isPrefixOf name.toList = true <;>
    by_cases hname' : "test-".toList.isPrefixOf name'.toList = true
  · rw [if_pos hname, if_pos hname'] at h
    simpa using h
  · rw [if_pos hname, if_neg hname'] at h
    exact absurd h (pattern_ne_of_marked (List.isPrefixOf_iff_prefix.1 hname))
  · rw [if_neg hname, if_pos hname'] at h
    exact absurd h.symm (pattern_ne_of_marked (List.isPrefixOf_iff_prefix.1 hname'))
  · rw [if_neg hname, if_neg hname'] at h
    simpa using h

end Patterns

namespace Schema
variable {g : TypeGraph} {c : ClassType}

theorem get?_withMember (present : Bool) (key k : String) (value : Json) (s : Schema) :
    (withMember present key value s).get? k =
      if present = true ∧ k = key then some value else s.get? k := by
  rw [withMember]
  split
  · rw [Table.get?_insert]
    simp_all
  · simp_all

def members (g : TypeGraph) (c : ClassType) : Schema :=
  .ofList ((visibleProperties g c).map fun p => (p.name, (ofProperty g p).toJson))

theorem keys_members (g : TypeGraph) (c : ClassType) :
    (members g c).keys = ((visibleProperties g c).map (·.name)).eraseDups := by
  rw [members, Table.keys_ofList, List.map_map]
  rfl

theorem requiredNames_subset (g : TypeGraph) (c : ClassType) :
    requiredNames g c ⊆ (members g c).keys := by
  intro name hname
  rw [keys_members, List.mem_eraseDups]
  exact (List.filter_sublist.map _).subset hname

theorem members_eq (g : TypeGraph) (c : ClassType) :
    members g c = .ofList (((visibleProperties g c).map fun p => (p, ofProperty g p)).map fun s =>
      (s.1.name, s.2.toJson)) := by
  rw [members, List.map_map]
  rfl

def patterns (g : TypeGraph) (c : ClassType) : Schema :=
  .ofList (((visibleProperties g c).filter (·.isModifierAware)).map fun p =>
    (modifierPattern p.name, (ofProperty g p).toJson))

theorem patterns_eq (g : TypeGraph) (c : ClassType) :
    patterns g c = .ofList ((((visibleProperties g c).map fun p => (p, ofProperty g p)).filter
      (·.1.isModifierAware)).map fun s => (modifierPattern s.1.name, s.2.toJson)) := by
  rw [patterns, List.filter_map, List.map_map]
  rfl

theorem get?_properties_ofObject (g : TypeGraph) (c : ClassType) :
    (ofObject g c).get? "properties" =
      if (members g c).entries.isEmpty then none else some (members g c).toJson := by
  have hbase : (Table.ofList [("type", Json.str "object"),
      ("additionalProperties", .bool false)]).get? "properties" = none := rfl
  simp only [ofObject, objectOf, ← members_eq, get?_withMember, hbase]
  simp [apply_ite]

theorem get?_required_ofObject (g : TypeGraph) (c : ClassType) :
    (ofObject g c).get? "required" =
      if requiredNames g c ≠ [] ∧
          (requiredNames g c).length < (g.effectiveProperties c).length then
        some (.arr ((requiredNames g c).map .str))
      else none := by
  have hbase : (Table.ofList [("type", Json.str "object"),
      ("additionalProperties", .bool false)]).get? "required" = none := rfl
  simp only [ofObject, objectOf, get?_withMember, hbase]
  simp

theorem get?_patternProperties_ofObject (g : TypeGraph) (c : ClassType) :
    (ofObject g c).get? "patternProperties" =
      if (patterns g c).entries.isEmpty then none else some (patterns g c).toJson := by
  have hbase : (Table.ofList [("type", Json.str "object"),
      ("additionalProperties", .bool false)]).get? "patternProperties" = none := rfl
  simp only [ofObject, objectOf, ← patterns_eq, get?_withMember, hbase]
  simp [apply_ite]

theorem get?_title_ofObject (g : TypeGraph) (c : ClassType) :
    (ofObject g c).get? "title" =
      if c.doc.getD "" = "" then none else some (.str (c.doc.getD "")) := by
  have hbase : (Table.ofList [("type", Json.str "object"),
      ("additionalProperties", .bool false)]).get? "title" = none := rfl
  simp only [ofObject, objectOf, get?_withMember, hbase]
  simp [apply_ite]

theorem nodup_visibleProperties (h : (c.properties.map (·.name)).Nodup) :
    ((visibleProperties g c).map (·.name)).Nodup :=
  (nodup_effectiveProperties g h).sublist (List.filter_sublist.map _)

theorem entries_members (h : (c.properties.map (·.name)).Nodup) :
    (members g c).entries =
      (visibleProperties g c).map fun p => (p.name, (ofProperty g p).toJson) := by
  have hnodup : (((visibleProperties g c).map fun p =>
      (p.name, (ofProperty g p).toJson)).map Prod.fst).Nodup := by
    rw [List.map_map]
    exact nodup_visibleProperties h
  exact Table.entries_ofList hnodup

theorem properties_of_nodup (h : (c.properties.map (·.name)).Nodup) :
    (ofObject g c).get? "properties" =
      if visibleProperties g c = [] then none
      else some (.obj ((visibleProperties g c).map fun p => (p.name, (ofProperty g p).toJson))) := by
  rw [get?_properties_ofObject, toJson, entries_members h]
  exact if_congr (by rw [List.isEmpty_iff, List.map_eq_nil_iff]) rfl rfl

theorem nodup_patterns (h : (c.properties.map (·.name)).Nodup) :
    (((visibleProperties g c).filter (·.isModifierAware)).map
      fun p => modifierPattern p.name).Nodup := by
  have hnames : (((visibleProperties g c).filter (·.isModifierAware)).map (·.name)).Nodup :=
    (nodup_visibleProperties h).sublist (List.filter_sublist.map _)
  have hpatterns := hnames.map modifierPattern_injective
  rwa [List.map_map] at hpatterns

theorem entries_patterns (h : (c.properties.map (·.name)).Nodup) :
    (patterns g c).entries = ((visibleProperties g c).filter (·.isModifierAware)).map fun p =>
      (modifierPattern p.name, (ofProperty g p).toJson) := by
  have hnodup : ((((visibleProperties g c).filter (·.isModifierAware)).map fun p =>
      (modifierPattern p.name, (ofProperty g p).toJson)).map Prod.fst).Nodup := by
    rw [List.map_map]
    exact nodup_patterns h
  exact Table.entries_ofList hnodup

theorem patternProperties_of_nodup (h : (c.properties.map (·.name)).Nodup) :
    (ofObject g c).get? "patternProperties" =
      if (visibleProperties g c).filter (·.isModifierAware) = [] then none
      else some (.obj (((visibleProperties g c).filter (·.isModifierAware)).map fun p =>
        (modifierPattern p.name, (ofProperty g p).toJson))) := by
  rw [get?_patternProperties_ofObject, toJson, entries_patterns h]
  exact if_congr (by rw [List.isEmpty_iff, List.map_eq_nil_iff]) rfl rfl

theorem required_of_ofClass {v : Json} (h : (ofClass g c).get? "required" = some v) :
    v = .arr ((requiredNames g c).map .str) ∧ ∃ members,
      (ofClass g c).get? "properties" = some (.obj members) ∧
        requiredNames g c ⊆ members.map Prod.fst := by
  rw [ofClass] at h ⊢
  split at h
  · have hmem := Table.mem_ofList (Table.mem_of_get? h)
    simp at hmem
  · rename_i hopen
    rw [get?_required_ofObject] at h
    split at h
    · rename_i hlisted
      obtain ⟨name, hname⟩ := List.exists_mem_of_ne_nil _ hlisted.1
      obtain ⟨entry, hentry, -⟩ := List.mem_map.1 (requiredNames_subset g c hname)
      have hshown : (members g c).entries.isEmpty = false :=
        List.isEmpty_eq_false_iff_exists_mem.2 ⟨entry, hentry⟩
      refine ⟨(Option.some.inj h).symm, (members g c).entries, ?_, requiredNames_subset g c⟩
      rw [if_neg hopen, get?_properties_ofObject, hshown]
      rfl
    · simp at h

theorem nodup_requiredNames (h : (c.properties.map (·.name)).Nodup) :
    (requiredNames g c).Nodup :=
  (nodup_effectiveProperties g h).sublist
    ((List.filter_sublist.trans List.filter_sublist).map _)

end Schema

namespace Builder
open Schema
variable {g : TypeGraph} {name : String} {c : ClassType}

/-- The definition of a class without variants, in whatever build it is made. It has the visible
properties in their order, each with the schema that a request for it is answered with, and those
that may carry a qualifier once more under patterns of their own. It requires the visible properties
without a default that are not nullable, unless that would be all properties, hidden ones included.
Its title is the documentation. -/
theorem definition_of_object (hclass : g.classes.get? name = some c) (hopen : c.isSealed = false)
    (hnames : (c.properties.map (·.name)).Nodup) :
    let all := g.effectiveProperties c
    let visible := all.filter fun p => !p.isHidden
    let aware := visible.filter fun p => p.isModifierAware
    let required := (visible.filter fun p => !p.isNullable && p.defaultText.isNone).map (·.name)
    ∃ (definition : Schema) (schemaOf : Property → Json),
      (answerAll g {} [.definition name]).definitions.get? name = some definition ∧
      (∀ requests, name ∈ (answerAll g {} requests).defined →
        (answerAll g {} requests).definitions.get? name = some definition) ∧
      (∀ b p, (answer g b (.property p)).2.1 = .ok (some (schemaOf p))) ∧
      definition.get? "properties" =
        (if visible = [] then none
        else some (.obj (visible.map fun p => (p.name, schemaOf p)))) ∧
      definition.get? "patternProperties" =
        (if aware = [] then none
        else some (.obj (aware.map fun p => (modifierPattern p.name, schemaOf p)))) ∧
      (visible.map (·.name)).Nodup ∧ (aware.map fun p => modifierPattern p.name).Nodup ∧
      definition.get? "required" =
        (if required ≠ [] ∧ required.length < all.length then some (.arr (required.map .str))
        else none) ∧
      definition.get? "title" =
        if c.doc.getD "" = "" then none else some (.str (c.doc.getD "")) := by
  intro all visible aware required
  have hdefinition : ofClass g c = ofObject g c := by
    rw [ofClass, hopen]
    rfl
  refine ⟨ofClass g c, fun p => (ofProperty g p).toJson, get?_answer_definition hclass,
    fun _ hdefined => get?_of_mem_defined hclass hdefined,
    fun b p => Building.answer_property g b p, ?_, ?_, nodup_visibleProperties hnames,
    nodup_patterns hnames, ?_, ?_⟩
  · rw [hdefinition]
    exact properties_of_nodup hnames
  · rw [hdefinition]
    exact patternProperties_of_nodup hnames
  · rw [hdefinition]
    exact get?_required_ofObject g c
  · rw [hdefinition]
    exact get?_title_ofObject g c

def layeredClass : ClassType where
  name := "Module"
  doc := some "A module."
  properties :=
    [{ name := "deps", typeName := "String", isList := true, annotations := ["ModifierAware"] },
      { name := "test-deps", typeName := "Kind", isNullable := true,
        annotations := ["ModifierAware"] },
      { name := "id", typeName := "Int", annotations := ["HiddenFromCompletion"] }]
  parent := some "Base"

def layeredGraph : TypeGraph := TypeGraph.empty.addAll
  [.ofClass layeredClass, .ofClass { name := "Base", properties :=
    [{ name := "id", typeName := "Int" },
      { name := "level", typeName := "Int", defaultText := some "8" },
      { name := "kind", typeName := "Kind" }] }]

theorem definition_of_object_layeredGraph :
    layeredGraph.classes.get? "Module" = some layeredClass ∧ layeredClass.isSealed = false ∧
    (layeredClass.properties.map (·.name)).Nodup ∧
    ∃ definition : Schema,
      (answerAll layeredGraph {} [.definition "Module"]).definitions.get? "Module" =
        some definition ∧
      (∃ deps testDeps level kind, definition.get? "properties" =
        some (.obj [("deps", deps), ("test-deps", testDeps), ("level", level), ("kind", kind)]) ∧
        definition.get? "patternProperties" =
          some (.obj [("^(test-)?deps(@.+)?$", deps), ("^test-deps(@.+)?$", testDeps)])) ∧
      definition.get? "required" = some (.arr [.str "deps", .str "kind"]) ∧
      definition.get? "title" = some (.str "A module.") := by
  have hclass : layeredGraph.classes.get? "Module" = some layeredClass := by decide
  have hnames : (layeredClass.properties.map (·.name)).Nodup := by decide
  obtain ⟨definition, _, hbuilt, -, -, hproperties, hpatterns, -, -, hrequired, htitle⟩ :=
    definition_of_object hclass rfl hnames
  have hall : layeredGraph.effectiveProperties layeredClass = layeredClass.properties ++
      [{ name := "level", typeName := "Int", defaultText := some "8" },
        { name := "kind", typeName := "Kind" }] := by decide +kernel
  rw [hall] at hproperties hpatterns hrequired
  exact ⟨hclass, rfl, hnames, definition, hbuilt, ⟨_, _, _, _, hproperties, hpatterns⟩, hrequired,
    htitle⟩

end Builder

end KotlinSchema
