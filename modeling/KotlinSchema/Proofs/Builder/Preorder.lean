import KotlinSchema.Proofs.Builder.Derivation
import Mathlib.Logic.Relation

/-! The order of definitions. A new builder that is asked for a root class defines the classes that
the root reaches through references, each once, in depth-first pre-order. -/

namespace KotlinSchema
open Relation

section Preorder
variable {α : Type} {next : α → List α} {seen pending order : List α}

/-- What visiting the pending nodes in turn adds to the nodes seen before. A node comes before all
that is first met below it, and this before all that is first met from the nodes after it. -/
inductive Preorder (next : α → List α) : List α → List α → List α → Prop where
  | nil (seen : List α) : Preorder next seen [] []
  | skip {seen rest order : List α} {a : α} :
    a ∈ seen → Preorder next seen rest order → Preorder next seen (a :: rest) order
  | visit {seen rest below after : List α} {a : α} :
    a ∉ seen → Preorder next (seen ++ [a]) (next a) below →
      Preorder next (seen ++ a :: below) rest after →
      Preorder next seen (a :: rest) (a :: below ++ after)

namespace Preorder

theorem append {as bs o o' : List α} (h : Preorder next seen as o)
    (h' : Preorder next (seen ++ o) bs o') : Preorder next seen (as ++ bs) (o ++ o') := by
  induction h with
  | nil seen => simpa using h'
  | skip ha _ ih => exact .skip ha (ih h')
  | @visit seen rest below after a ha hb _ _ ih =>
    have hr : Preorder next (seen ++ a :: below) (rest ++ bs) (after ++ o') :=
      ih (by simpa [List.append_assoc] using h')
    simpa [List.append_assoc] using visit ha hb hr

theorem single {below : List α} {a : α} (h : Preorder next (seen ++ [a]) (next a) below)
    (ha : a ∉ seen) : Preorder next seen [a] (a :: below) := by
  simpa using visit ha h (.nil _)

theorem not_mem_seen (h : Preorder next seen pending order) : ∀ b ∈ order, b ∉ seen := by
  induction h with
  | nil seen => simp
  | skip _ _ ih => exact ih
  | @visit seen rest below after a ha _ _ ihb iha =>
    intro b hb
    rcases List.mem_append.1 hb with hb | hb
    · rcases List.mem_cons.1 hb with rfl | hb
      · exact ha
      · exact fun hs => ihb b hb (List.mem_append_left _ hs)
    · exact fun hs => iha b hb (List.mem_append_left _ hs)

theorem nodup (h : Preorder next seen pending order) : order.Nodup := by
  induction h with
  | nil seen => exact List.nodup_nil
  | skip _ _ ih => exact ih
  | @visit seen rest below after a _ hb ha ihb iha =>
    have hbelow : (a :: below).Nodup := List.nodup_cons.2
      ⟨fun h => hb.not_mem_seen a h (List.mem_append_right _ List.mem_cons_self), ihb⟩
    refine List.nodup_append.2 ⟨hbelow, iha, fun x hx y hy => ?_⟩
    rintro rfl
    exact ha.not_mem_seen x hy (List.mem_append_right _ hx)

theorem mem_of_mem_pending (h : Preorder next seen pending order) {b : α} (hb : b ∈ pending) :
    b ∈ seen ∨ b ∈ order := by
  induction h with
  | nil seen => simp at hb
  | skip ha _ ih =>
    rcases List.mem_cons.1 hb with rfl | hb
    · exact .inl ha
    · exact ih hb
  | @visit seen rest below after a _ _ _ _ iha =>
    rcases List.mem_cons.1 hb with rfl | hb
    · exact .inr (List.mem_append_left _ List.mem_cons_self)
    · have := iha hb
      grind

theorem mem_of_mem_next (h : Preorder next seen pending order) {b c : α} (hb : b ∈ order)
    (hc : c ∈ next b) : c ∈ seen ∨ c ∈ order := by
  induction h with
  | nil seen => simp at hb
  | skip _ _ ih => exact ih hb
  | @visit seen rest below after a _ hbelow _ ihb iha =>
    rcases List.mem_append.1 hb with hb | hb
    · rcases List.mem_cons.1 hb with rfl | hb
      · have := hbelow.mem_of_mem_pending hc
        grind
      · have := ihb hb
        grind
    · have := iha hb
      grind

theorem reachable (h : Preorder next seen pending order) {b : α} (hb : b ∈ order) :
    ∃ a ∈ pending, ReflTransGen (fun a b => b ∈ next a) a b := by
  induction h with
  | nil seen => simp at hb
  | skip _ _ ih =>
    obtain ⟨a, ha, hab⟩ := ih hb
    exact ⟨a, List.mem_cons_of_mem _ ha, hab⟩
  | @visit seen rest below after a _ _ _ ihb iha =>
    rcases List.mem_append.1 hb with hb | hb
    · rcases List.mem_cons.1 hb with rfl | hb
      · exact ⟨b, List.mem_cons_self, .refl⟩
      · obtain ⟨a', ha', hab⟩ := ihb hb
        exact ⟨a, List.mem_cons_self, .head ha' hab⟩
    · obtain ⟨a', ha', hab⟩ := iha hb
      exact ⟨a', List.mem_cons_of_mem _ ha', hab⟩

theorem mem_iff (h : Preorder next [] pending order) (b : α) :
    b ∈ order ↔ ∃ a ∈ pending, ReflTransGen (fun a b => b ∈ next a) a b := by
  refine ⟨h.reachable, ?_⟩
  rintro ⟨a, ha, hab⟩
  induction hab with
  | refl => simpa using h.mem_of_mem_pending ha
  | tail _ hc ih => simpa using h.mem_of_mem_next ih hc

theorem unique {order' : List α} (h : Preorder next seen pending order)
    (h' : Preorder next seen pending order') : order' = order := by
  induction h generalizing order' with
  | nil seen => cases h'; rfl
  | skip ha _ ih =>
    cases h' with
    | skip _ hr => exact ih hr
    | visit hn _ _ => exact absurd ha hn
  | visit hn _ _ ihb iha =>
    cases h' with
    | skip ha _ => exact absurd ha hn
    | visit _ hb hr =>
      obtain rfl := ihb hb
      obtain rfl := iha hr
      rfl

end Preorder
end Preorder

/-- The classes of the graph that the definition of a class refers to: the variants of a sealed
class, or the types of the visible properties where a class is what they mean. -/
def TypeGraph.references (g : TypeGraph) (name : String) : List String :=
  match g.classes.get? name with
  | none => []
  | some c =>
    if c.isSealed then c.subclasses.filter fun n => g.classes.contains n
    else (((g.effectiveProperties c).filter fun p => !p.isHidden).map (·.typeName)).filter
      fun t => !g.enums.contains t && g.classes.contains t

namespace Building
open Schema

def Effect.target? (g : TypeGraph) : Effect → Option String
  | .define className => if g.classes.contains className then some className else none
  | .report _ | .notice _ => none

theorem filterMap_target?_ofType (g : TypeGraph) (typeName : String) :
    (Effect.ofType g typeName).filterMap (Effect.target? g) =
      [typeName].filter fun t => !g.enums.contains t && g.classes.contains t := by
  have henum : g.enums.contains typeName = (g.enums.get? typeName).isSome := rfl
  have hclass : g.classes.contains typeName = (g.classes.get? typeName).isSome := rfl
  unfold Effect.ofType meaning
  cases he : g.enums.get? typeName with
  | some e => simp [henum, he]
  | none =>
    cases hc : g.classes.get? typeName with
    | some c => simp [Effect.target?, henum, hclass, he, hc]
    | none =>
      cases (tracedEnum? typeName).bind g.enums.get? with
      | some e => simp [hclass, hc]
      | none => cases primitive? typeName <;> simp [Effect.target?, hclass, hc]

theorem filterMap_target?_ofClass {g : TypeGraph} {name : String} {c : ClassType}
    (hg : g.classes.get? name = some c) :
    (Effect.ofClass g c).filterMap (Effect.target? g) = g.references name := by
  unfold Effect.ofClass TypeGraph.references
  rw [hg]
  by_cases hs : c.isSealed
  · have hnotice : (if c.subclasses.isEmpty then [Effect.notice (.noSubclasses c.name)]
        else []).filterMap (Effect.target? g) = [] := by
      split <;> rfl
    simp only [hs, if_true, List.filterMap_append, hnotice, List.nil_append, List.filterMap_map,
      Function.comp_def, Effect.target?, variants]
    rw [← List.filterMap_eq_filter, List.filterMap_filterMap]
    refine congrArg (fun f => List.filterMap f c.subclasses) (funext fun n => ?_)
    by_cases hn : g.classes.contains n <;> simp [Option.guard, hn]
  · simp only [hs, Bool.false_eq_true, if_false, List.filterMap_flatMap, filterMap_target?_ofType,
      visibleProperties]
    rw [← List.filter_flatMap, ← List.map_eq_flatMap]

/-- What effects add to the names that have a slot, is what visiting the classes they ask for adds
to the nodes seen. -/
theorem Derives.preorder {g : TypeGraph} {s t : Building} {es : List Effect}
    (h : Derives g s es t) :
    ∃ order, t.builder.defined = s.builder.defined ++ order ∧
      Preorder g.references s.builder.defined (es.filterMap (Effect.target? g)) order := by
  induction h with
  | nil s => exact ⟨[], by simp, .nil _⟩
  | @cons s t u e es _ _ ihe ihes =>
    obtain ⟨o, ht, ho⟩ := ihe
    obtain ⟨o', hu, ho'⟩ := ihes
    refine ⟨o ++ o', by rw [hu, ht, List.append_assoc], ?_⟩
    rw [← List.singleton_append, List.filterMap_append]
    exact ho.append (ht ▸ ho')
  | reported _ => exact ⟨[], by simp, .nil _⟩
  | report _ => exact ⟨[], by simp [Builder.defined], .nil _⟩
  | notice s n => exact ⟨[], by simp, .nil _⟩
  | missing hg =>
    refine ⟨[], by simp, ?_⟩
    simpa [Effect.target?, Table.contains, hg] using Preorder.nil _
  | @defined s name hd =>
    refine ⟨[], by simp, ?_⟩
    by_cases hc : g.classes.contains name
    · simpa [Effect.target?, hc] using Preorder.skip hd (.nil _)
    · simpa [Effect.target?, hc] using Preorder.nil _
  | @define s t name c hg hd _ ih =>
    obtain ⟨below, ht, hbelow⟩ := ih
    rw [builder_store, Builder.defined_store_of_not_mem hd] at ht hbelow
    rw [filterMap_target?_ofClass hg] at hbelow
    have hname : name ∈ t.builder.defined := by simp [ht]
    refine ⟨name :: below, by simp [Builder.defined_store_of_mem hname, ht], ?_⟩
    simpa [Effect.target?, Table.contains, hg] using hbelow.single hd

end Building

/-- A new builder that is asked for a class of the graph defines exactly the classes which that one
reaches, each once, in depth-first pre-order, and its document lists them in this order. -/
theorem Builder.build_defines_preorder {g : TypeGraph} {root : String}
    (h : g.classes.contains root = true) :
    ∃ after notices definitions,
      Builder.build g {} root = .ok (after, notices) ∧
      (after.document root).field? "$defs" = some (.obj definitions) ∧
      (definitions.map Prod.fst).head? = some root ∧
      (definitions.map Prod.fst).Nodup ∧
      (∀ name, name ∈ definitions.map Prod.fst ↔
        ReflTransGen (fun a b => b ∈ g.references a) root name) ∧
      ∀ order, Preorder g.references [] [root] order ↔ order = definitions.map Prod.fst := by
  obtain ⟨order, hdefined, horder⟩ := (Building.derives_define g root ⟨{}, []⟩).preorder
  have hroot : [Building.Effect.define root].filterMap (Building.Effect.target? g) = [root] := by
    simp [Building.Effect.target?, h]
  rw [hroot] at horder
  change Preorder g.references [] [root] order at horder
  let after := (Building.define g root ⟨{}, []⟩).1
  have hkeys : (after.builder.definitions.entries.map fun d => (d.1, d.2.toJson)).map Prod.fst =
      order := by
    rw [List.map_map]
    exact hdefined
  refine ⟨after.builder, after.notices, _, ?_, rfl, ?_, ?_, ?_, ?_⟩
  · simp only [build, h, if_true]
    rfl
  · rw [hkeys]
    cases horder with
    | skip hr _ => simp at hr
    | visit _ _ _ => rfl
  · rw [hkeys]
    exact horder.nodup
  · intro name
    rw [hkeys, horder.mem_iff]
    simp
  · intro order'
    rw [hkeys]
    exact ⟨horder.unique, fun h => h ▸ horder⟩

theorem Builder.build_cyclicGraph :
    cyclicGraph.classes.contains "Module" = true ∧
      ∃ after notices definitions,
        Builder.build cyclicGraph {} "Module" = .ok (after, notices) ∧
        (after.document "Module").field? "$defs" = some (.obj definitions) ∧
        definitions.map Prod.fst = ["Module", "Base", "Leaf"] := by
  have hroot : cyclicGraph.classes.contains "Module" = true := by decide
  have hmodule : cyclicGraph.references "Module" = ["Base"] := by decide +kernel
  have hbase : cyclicGraph.references "Base" = ["Module", "Leaf"] := by decide +kernel
  have hleaf : cyclicGraph.references "Leaf" = ["Base"] := by decide +kernel
  have hfromLeaf : Preorder cyclicGraph.references ["Module", "Base", "Leaf"]
      (cyclicGraph.references "Leaf") [] := by
    rw [hleaf]
    exact .skip (by decide) (.nil _)
  have hfromBase : Preorder cyclicGraph.references ["Module", "Base"]
      (cyclicGraph.references "Base") ["Leaf"] := by
    rw [hbase]
    exact .skip (by decide) (hfromLeaf.single (by decide))
  have hfromModule : Preorder cyclicGraph.references ["Module"]
      (cyclicGraph.references "Module") ["Base", "Leaf"] := by
    rw [hmodule]
    exact hfromBase.single (by decide)
  have horder : Preorder cyclicGraph.references [] ["Module"] ["Module", "Base", "Leaf"] :=
    hfromModule.single (by decide)
  obtain ⟨after, notices, definitions, hbuild, hdefs, -, -, -, hunique⟩ :=
    build_defines_preorder hroot
  exact ⟨hroot, after, notices, definitions, hbuild, hdefs, ((hunique _).1 horder).symm⟩

end KotlinSchema
