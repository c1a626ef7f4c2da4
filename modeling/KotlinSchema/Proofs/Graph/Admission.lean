import KotlinSchema.Proofs.Builder.Objects
import KotlinSchema.Proofs.Graph.Histories
import KotlinSchema.Proofs.Parsing.Defaults

/-! What a graph holds that has only been made from sources: classes of the schema, each under its
own name, with properties of different names. -/

namespace KotlinSchema
open Text Source

namespace TypeGraph
variable {steps : List Step} {c : ClassType}

/-- A history in which sources are parsed and hierarchies are resolved, and nothing is added by
hand. -/
def IsReading (steps : List Step) : Prop :=
  ∀ s ∈ steps, s = .resolve ∨ ∃ source origin, s = .parse source origin

/-- A class is what a source of a history declares, subclasses apart. -/
def IsRead (steps : List Step) (c : ClassType) : Prop :=
  ∃ source origin d text, .parse source origin ∈ steps ∧ d ∈ admitted source origin ∧
    d.kind = .classLike ∧ d.text source = .ok text ∧
      c = { d.classOf text with subclasses := c.subclasses }

theorem isRead_of_mem (h : IsReading steps) :
    ∀ c ∈ (after .empty steps).classes.values, IsRead steps c := by
  refine forall_classes_after (fun s hs c hc => ?_) ?_
  · rcases h s hs with rfl | ⟨source, origin, rfl⟩
    · simp [Step.added] at hc
    · obtain ⟨d, hd, hextract⟩ := Step.exists_of_mem_added hc
      obtain ⟨hkind, text, htext, rfl⟩ := Declaration.exists_of_extract_class hextract
      exact ⟨source, origin, d, text, hs, hd, hkind, htext, rfl⟩
  · rintro c subclasses - ⟨source, origin, d, text, hs, hd, hkind, htext, hc⟩
    exact ⟨source, origin, d, text, hs, hd, hkind, htext, by rw [hc]⟩

/-- A class may be part of the schema: because it or its parent is named as settings, because its
parent is one of the supertypes of the schema, or because it has none. -/
def IsAdmissible (c : ClassType) : Prop :=
  isSettingsName c.name = true ∨ c.parent = none ∨
    ∃ parent ∈ c.parent, parent ∈ schemaSupertypes ∨ isSettingsName parent = true

namespace IsRead

theorem parent_ne (h : IsRead steps c) : c.parent ≠ some rootSupertype := by
  obtain ⟨-, -, d, text, -, -, -, -, hc⟩ := h
  have hparent := congrArg ClassType.parent hc
  change c.parent = if d.supertype = some rootSupertype then none else d.supertype at hparent
  rw [hparent]
  split
  · simp
  · assumption

theorem isAdmissible (h : IsRead steps c) : IsAdmissible c := by
  obtain ⟨source, origin, d, text, -, hd, hkind, -, hc⟩ := h
  have hname : c.name = d.name := congrArg ClassType.name hc
  have hparent : c.parent = if d.supertype = some rootSupertype then none else d.supertype :=
    congrArg ClassType.parent hc
  have hadmitted := (List.mem_filter.1 hd).2
  rw [Declaration.isAdmitted, hkind] at hadmitted
  simp only [isSchemaClass, Bool.or_eq_true, Option.any_eq_true, List.contains_eq_mem,
    decide_eq_true_eq] at hadmitted
  rw [IsAdmissible, hname, hparent]
  split
  · exact .inr (.inl rfl)
  · rcases hadmitted with (⟨parent, hsupertype, hmem⟩ | hsettings) | ⟨parent, hsupertype, hsettings⟩
    · exact .inr (.inr ⟨parent, hsupertype, .inl hmem⟩)
    · exact .inl hsettings
    · exact .inr (.inr ⟨parent, hsupertype, .inr hsettings⟩)

theorem nodup_properties (h : IsRead steps c) : (c.properties.map (·.name)).Nodup := by
  obtain ⟨-, -, d, text, -, -, -, -, hc⟩ := h
  rw [hc]
  exact List.pairwise_map.2 ((pairwise_eraseDupsBy _).imp fun hne => Ne.symm (by simpa using hne))

end IsRead

theorem exists_of_mem_properties {d : Declaration} {text : List Char} {subclasses : List String}
    {q : Property} (hq : q ∈ { d.classOf text with subclasses }.properties) :
    ∃ p ∈ findAll propertyText? text, q = propertyOf p := by
  obtain ⟨p, hp, rfl⟩ := List.mem_map.1 (mem_of_mem_eraseDupsBy hq)
  exact ⟨p, hp, rfl⟩

theorem nodup_annotations (p : PropertyText) : (propertyOf p).annotations.Nodup :=
  nodup_eraseDups _

/-- What holds of every graph that is made by parsing sources and resolving hierarchies, whether the
sources fail or not. -/
theorem reading_invariants (h : IsReading steps) :
    let g := after .empty steps
    (∀ p ∈ g.classes.entries, p.1 = p.2.name) ∧ (∀ p ∈ g.enums.entries, p.1 = p.2.name) ∧
    (∀ c ∈ g.classes.values, c.parent ≠ some rootSupertype ∧ IsAdmissible c) ∧
    (∀ c ∈ g.classes.values, (c.properties.map (·.name)).Nodup ∧
      ∀ q ∈ c.properties, q.annotations.Nodup) ∧
    (∀ c ∈ g.classes.values, ∃ source origin d text, .parse source origin ∈ steps ∧
      d ∈ admitted source origin ∧ d.name = c.name ∧ d.text source = .ok text ∧
      ∀ q ∈ c.properties, ∃ p ∈ findAll propertyText? text, q = propertyOf p ∧
        (p.delegation.delegate = .nullableValue → q.isRequired = false) ∧
        ∀ arguments, p.delegation.IsGiven arguments → trim arguments ≠ [] →
          q.isRequired = false) ∧
    (∀ c ∈ g.classes.values, ((g.effectiveProperties c).map (·.name)).Nodup) ∧
    ∀ requests name definition value,
      (Builder.answerAll g {} requests).definitions.get? name = some definition →
      definition.get? "required" = some value →
      ∃ names members, value = .arr (names.map .str) ∧ names.Nodup ∧
        definition.get? "properties" = some (.obj members) ∧ names ⊆ members.map Prod.fst := by
  intro g
  have hread : ∀ c ∈ g.classes.values, IsRead steps c := isRead_of_mem h
  have hnodup (c : ClassType) (hc : c ∈ g.classes.values) : (c.properties.map (·.name)).Nodup :=
    (hread c hc).nodup_properties
  refine ⟨(after .empty steps).classes_named, (after .empty steps).enums_named,
    fun c hc => ⟨(hread c hc).parent_ne, (hread c hc).isAdmissible⟩,
    fun c hc => ⟨hnodup c hc, fun q hq => ?_⟩, fun c hc => ?_,
    fun c hc => nodup_effectiveProperties g (hnodup c hc), ?_⟩
  · obtain ⟨-, -, d, text, -, -, -, -, heq⟩ := hread c hc
    obtain ⟨p, -, rfl⟩ := exists_of_mem_properties (heq ▸ hq)
    exact nodup_annotations p
  · obtain ⟨source, origin, d, text, hs, hd, -, htext, heq⟩ := hread c hc
    have hname : d.name = c.name := (congrArg ClassType.name heq).symm
    refine ⟨source, origin, d, text, hs, hd, hname, htext, fun q hq => ?_⟩
    obtain ⟨p, hp, rfl⟩ := exists_of_mem_properties (heq ▸ hq)
    exact ⟨p, hp, rfl, not_isRequired_of_nullable, fun _ => not_isRequired_of_isGiven hp⟩
  · intro requests name definition value hdefinition hrequired
    obtain ⟨c, hc, rfl⟩ := Builder.get?_answerAll hdefinition
    obtain ⟨rfl, members, hmembers, hsubset⟩ := Schema.required_of_ofClass hrequired
    have hmem : c ∈ g.classes.values := List.mem_map_of_mem (Table.mem_of_get? hc)
    exact ⟨_, members, rfl, Schema.nodup_requiredNames (hnodup c hmem), hmembers, hsubset⟩

def readingHistory : List Step :=
  [.parse "class A : Base() \x7b val a by value(1) \x7d".toList none, .resolve,
    .parse "class B : Base() \x7b".toList none]

theorem reading_invariants_readingHistory :
    IsReading readingHistory ∧ (after .empty readingHistory).classes.keys = ["A"] ∧
    ∀ c ∈ (after .empty readingHistory).classes.values,
      c.parent ≠ some rootSupertype ∧ IsAdmissible c := by
  have hreading : IsReading readingHistory := by
    intro s hs
    simp only [readingHistory, List.mem_cons, List.not_mem_nil, or_false] at hs
    rcases hs with rfl | rfl | rfl
    · exact .inr ⟨_, _, rfl⟩
    · exact .inl rfl
    · exact .inr ⟨_, _, rfl⟩
  exact ⟨hreading, by decide +kernel, (reading_invariants hreading).2.2.1⟩

/-- The type argument holds an arrow, whose angle bracket matches no other one. -/
def arrowSource : List Char :=
  "class A : Base() \x7b val f by value<(Int) -> String>(default = x) \x7d".toList

/-- So the argument after it is not found, and the property counts as required. -/
theorem isRequired_arrowSource :
    ∃ c ∈ (after .empty [.parse arrowSource none, .resolve]).classes.values,
      ∃ p ∈ findAll propertyText? " val f by value<(Int) -> String>(default = x) ".toList,
        p.delegation.calleeAt = "value<(Int) -> String>(default = x) ".toList ∧
        propertyOf p ∈ c.properties ∧ (propertyOf p).isRequired = true := by
  let f : Property := { name := "f", typeName := "(Int) -" }
  have hclasses : (after .empty [.parse arrowSource none, .resolve]).classes.values =
      [{ name := "A", properties := [f], parent := some "Base" }] := by decide +kernel
  have hfound :
      (findAll propertyText? " val f by value<(Int) -> String>(default = x) ".toList).map
        (fun p => (propertyOf p, p.delegation.calleeAt)) =
      [(f, "value<(Int) -> String>(default = x) ".toList)] := by decide +kernel
  obtain ⟨p, hp, heq⟩ := List.mem_map.1 (hfound ▸ List.mem_singleton.2 rfl)
  obtain ⟨hproperty, hcalleeAt⟩ := Prod.mk.inj heq
  rw [hclasses]
  exact ⟨_, List.mem_singleton.2 rfl, p, hp, hcalleeAt, hproperty ▸ List.mem_singleton.2 rfl,
    hproperty ▸ rfl⟩

end TypeGraph

end KotlinSchema
