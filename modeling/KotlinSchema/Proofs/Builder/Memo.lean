import KotlinSchema.Proofs.Builder.Derivation

/-! Definitions do not depend on the builder. Whatever a builder is asked for and in which order, it
holds for a class the definition that a new builder makes of that class alone, and keeps it. -/

namespace KotlinSchema
open Schema

variable {g : TypeGraph} {b b' b'' : Builder}

namespace Builder

/-- One builder holds all that another holds, and beyond that only finished definitions. -/
structure Extends (g : TypeGraph) (b b' : Builder) : Prop where
  kept : ∀ name d, b.definitions.get? name = some d → b'.definitions.get? name = some d
  made : ∀ name d, b'.definitions.get? name = some d → b.definitions.get? name = some d ∨
    ∃ c, g.classes.get? name = some c ∧ d = ofClass g c

namespace Extends

theorem refl (g : TypeGraph) (b : Builder) : Extends g b b :=
  ⟨fun _ _ h => h, fun _ _ h => .inl h⟩

theorem of_definitions_eq (h : b'.definitions = b.definitions) : Extends g b b' := by
  refine ⟨fun name d hd => ?_, fun name d hd => ?_⟩
  · rwa [h]
  · exact .inl (by rwa [← h])

theorem trans (h : Extends g b b') (h' : Extends g b' b'') : Extends g b b'' := by
  refine ⟨fun name d hd => h'.kept name d (h.kept name d hd), fun name d hd => ?_⟩
  rcases h'.made name d hd with hd | hd
  · exact h.made name d hd
  · exact .inr hd

end Extends

theorem get?_store (b : Builder) (name name' : String) (s : Schema) :
    (b.store name s).definitions.get? name' =
      if name' = name then some s else b.definitions.get? name' :=
  Table.get?_insert b.definitions name name' s

theorem mem_defined_iff (b : Builder) (name : String) :
    name ∈ b.defined ↔ ∃ d, b.definitions.get? name = some d := by
  rw [defined, ← Table.contains_iff, Table.contains, Option.isSome_iff_exists]

end Builder

namespace Building

theorem Derives.extends {s t : Building} {es : List Effect} (h : Derives g s es t) :
    Builder.Extends g s.builder t.builder := by
  induction h with
  | nil s => exact .refl g _
  | cons _ _ ihe ihes => exact ihe.trans ihes
  | reported _ => exact .refl g _
  | report _ => exact .of_definitions_eq rfl
  | notice s n => exact .refl g _
  | missing _ => exact .refl g _
  | defined _ => exact .refl g _
  | @define s t name c hg hd _ ih =>
    rw [builder_store] at ih ⊢
    -- The slot that is reserved in between differs from both builders, but only at `name`.
    refine ⟨fun n d hn => ?_, fun n d hn => ?_⟩
    · have hne : n ≠ name := by
        rintro rfl
        exact hd ((Builder.mem_defined_iff _ _).2 ⟨d, hn⟩)
      rw [Builder.get?_store, if_neg hne]
      exact ih.kept n d (by rwa [Builder.get?_store, if_neg hne])
    · rw [Builder.get?_store] at hn
      split at hn
      · rename_i hname
        exact .inr ⟨c, hname ▸ hg, (Option.some.inj hn).symm⟩
      · rename_i hne
        rcases ih.made n d hn with hn | hn
        · rw [Builder.get?_store, if_neg hne] at hn
          exact .inl hn
        · exact .inr hn

end Building

namespace Builder

theorem extends_answer (g : TypeGraph) (b : Builder) (r : Request) :
    Extends g b (b.answer g r).1 := by
  rw [Building.builder_answer]
  exact (Building.derives_applyAll g ⟨b, []⟩ _).extends

theorem extends_answerAll (g : TypeGraph) (b : Builder) (rs : List Request) :
    Extends g b (b.answerAll g rs) := by
  induction rs generalizing b with
  | nil => exact .refl g b
  | cons r rs ih => exact (extends_answer g b r).trans (ih _)

theorem answerAll_append (g : TypeGraph) (b : Builder) (rs rs' : List Request) :
    b.answerAll g (rs ++ rs') = (b.answerAll g rs).answerAll g rs' := by
  simp [answerAll]

theorem get?_answerAll {rs : List Request} {name : String} {d : Schema}
    (h : (answerAll g {} rs).definitions.get? name = some d) :
    ∃ c, g.classes.get? name = some c ∧ d = ofClass g c :=
  ((extends_answerAll g {} rs).made name d h).resolve_left (by simp [Table.get?, Table.empty])

theorem get?_answer_definition {c : ClassType} {name : String}
    (h : g.classes.get? name = some c) :
    (answerAll g {} [.definition name]).definitions.get? name = some (ofClass g c) := by
  have hfresh : name ∉ (Building.mk {} []).builder.defined := by
    simp [defined, Table.keys, Table.empty]
  change (Building.define g name ⟨{}, []⟩).1.builder.definitions.get? name = _
  rw [Building.define_of_fresh h hfresh, Building.builder_store, get?_store, if_pos rfl]

theorem get?_of_mem_defined {rs : List Request} {name : String} {c : ClassType}
    (hclass : g.classes.get? name = some c) (h : name ∈ (answerAll g {} rs).defined) :
    (answerAll g {} rs).definitions.get? name = some (ofClass g c) := by
  obtain ⟨d, hd⟩ := (mem_defined_iff _ _).1 h
  obtain ⟨c', hc', rfl⟩ := get?_answerAll hd
  obtain rfl : c' = c := Option.some.inj (hc'.symm.trans hclass)
  exact hd

/-- Two builders that hold a definition of a class hold the same one, whatever they were asked for:
the one that a new builder makes when it is asked for this class alone. No later request changes or
removes it. -/
theorem definition_eq_of_mem {rs rs' : List Request} {name : String}
    (h : name ∈ (answerAll g {} rs).defined) (h' : name ∈ (answerAll g {} rs').defined) :
    ∃ d, (answerAll g {} rs).definitions.get? name = some d ∧
      (answerAll g {} rs').definitions.get? name = some d ∧
      (answerAll g {} [.definition name]).definitions.get? name = some d ∧
      ∀ later, (answerAll g {} (rs ++ later)).definitions.get? name = some d := by
  obtain ⟨d, hd⟩ := (mem_defined_iff _ _).1 h
  obtain ⟨d', hd'⟩ := (mem_defined_iff _ _).1 h'
  obtain ⟨c, hc, rfl⟩ := get?_answerAll hd
  obtain ⟨c', hc', rfl⟩ := get?_answerAll hd'
  obtain rfl : c' = c := Option.some.inj (hc'.symm.trans hc)
  refine ⟨ofClass g c', hd, hd', get?_answer_definition hc, fun later => ?_⟩
  rw [answerAll_append]
  exact (extends_answerAll g _ later).kept name _ hd

theorem definition_eq_cyclicGraph :
    "Base" ∈ (answerAll cyclicGraph {} [.document "Nope", .document "Module"]).defined ∧
      "Base" ∈ (answerAll cyclicGraph {} [.type "Kind", .definition "Leaf"]).defined ∧
      ∃ d,
        (answerAll cyclicGraph {} [.document "Nope", .document "Module"]).definitions.get? "Base" =
          some d ∧
        (answerAll cyclicGraph {} [.type "Kind", .definition "Leaf"]).definitions.get? "Base" =
          some d ∧
        (answerAll cyclicGraph {} [.definition "Base"]).definitions.get? "Base" = some d ∧
        ∀ later, (answerAll cyclicGraph {}
          ([.document "Nope", .document "Module"] ++ later)).definitions.get? "Base" = some d := by
  have h : (answerAll cyclicGraph {} [.document "Nope", .document "Module"]).defined =
      ["Module", "Base", "Leaf"] := by decide +kernel
  have h' : (answerAll cyclicGraph {} [.type "Kind", .definition "Leaf"]).defined =
      ["Leaf", "Base", "Module"] := by decide +kernel
  have hmem := h ▸ (by simp : "Base" ∈ ["Module", "Base", "Leaf"])
  have hmem' := h' ▸ (by simp : "Base" ∈ ["Leaf", "Base", "Module"])
  exact ⟨hmem, hmem', definition_eq_of_mem hmem hmem'⟩

end Builder

end KotlinSchema
