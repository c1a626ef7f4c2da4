import KotlinSchema.Proofs.Model.Tables
import KotlinSchema.Proofs.Parsing.Descriptors

/-! Histories of a graph. However often its hierarchy is resolved on the way, a graph that is
resolved in the end is what it would be if it had been resolved only then. -/

namespace KotlinSchema
open Source

namespace TypeGraph
variable {g g' : TypeGraph} {c : ClassType}

section Hierarchy

theorem classes_resolve (g : TypeGraph) :
    g.resolve.classes = g.classes.mapValues (resolved g.childrenOf) := rfl

theorem resolved_resolved (f f' : String → List String) (name : String) (c : ClassType) :
    resolved f name (resolved f' name c) = resolved f name c := by
  by_cases h : c.isSealed <;> simp [resolved, h]

@[simp] theorem parent_resolved (children : String → List String) (name : String)
    (c : ClassType) : (resolved children name c).parent = c.parent := by
  rw [resolved]
  split <;> rfl

@[simp] theorem isSealed_resolved (children : String → List String) (name : String)
    (c : ClassType) : (resolved children name c).isSealed = c.isSealed := by
  rw [resolved]
  split <;> rfl

def parents (g : TypeGraph) : Table String (Option String) :=
  g.classes.mapValues fun _ c => c.parent

theorem childrenOf_congr (h : g.parents = g'.parents) : g.childrenOf = g'.childrenOf := by
  have hchildren : ∀ g : TypeGraph, g.childrenOf = fun parent =>
      (g.parents.entries.filter fun p => p.2 = some parent).map Prod.fst := by
    intro g
    funext parent
    simp [childrenOf, parents, Table.mapValues, List.filter_map, Function.comp_def]
  rw [hchildren, hchildren, h]

@[simp] theorem parents_resolve (g : TypeGraph) : g.resolve.parents = g.parents := by
  simp only [parents, classes_resolve, Table.mapValues_mapValues, parent_resolved]

theorem parents_addClass (g : TypeGraph) (c : ClassType) :
    (g.addClass c).parents = g.parents.insert c.name c.parent :=
  Table.mapValues_insert _ g.classes c.name c

theorem ext_classes (hclasses : g.classes = g'.classes) (henums : g.enums = g'.enums) : g = g' := by
  cases g
  cases g'
  simp_all

theorem resolve_resolve (g : TypeGraph) : g.resolve.resolve = g.resolve := by
  refine ext_classes ?_ rfl
  rw [classes_resolve, childrenOf_congr (parents_resolve g), classes_resolve,
    Table.mapValues_mapValues]
  simp only [resolved_resolved]

theorem resolve_add_resolve (g : TypeGraph) (x : Descriptor) :
    (g.resolve.add x).resolve = (g.add x).resolve := by
  cases x with
  | ofEnum e =>
    have hclasses : g.resolve.resolve.classes = g.resolve.classes :=
      congrArg classes (resolve_resolve g)
    exact ext_classes hclasses rfl
  | ofClass c =>
    have hchildren : (g.resolve.addClass c).childrenOf = (g.addClass c).childrenOf := by
      refine childrenOf_congr ?_
      rw [parents_addClass, parents_addClass, parents_resolve]
    refine ext_classes ?_ rfl
    calc (g.resolve.addClass c).resolve.classes
      _ = (g.resolve.classes.insert c.name c).mapValues (resolved (g.addClass c).childrenOf) := by
        rw [classes_resolve, hchildren]
        rfl
      _ = (g.classes.insert c.name c).mapValues (resolved (g.addClass c).childrenOf) := by
        rw [Table.mapValues_insert, Table.mapValues_insert, classes_resolve,
          Table.mapValues_mapValues]
        simp only [resolved_resolved]

theorem resolve_addAll_congr (h : g.resolve = g'.resolve) (xs : List Descriptor) :
    (g.addAll xs).resolve = (g'.addAll xs).resolve := by
  induction xs generalizing g g' with
  | nil => exact h
  | cons x xs ih =>
    rw [addAll_cons, addAll_cons]
    refine ih ?_
    rw [← resolve_add_resolve, h, resolve_add_resolve]

end Hierarchy

/-- What can be done to a graph. -/
inductive Step where
  | addClass (c : ClassType)
  | addEnum (e : EnumType)
  | parse (source : List Char) (origin : Option String)
  | resolve

namespace Step

def isResolve : Step → Bool
  | resolve => true
  | _ => false

def apply (g : TypeGraph) : Step → TypeGraph
  | addClass c => g.addClass c
  | addEnum e => g.addEnum e
  | parse source origin => ((TypeGraph.parse source origin).run.run g).2
  | resolve => g.resolve

/-- What a step adds to a graph: nothing if it is a source that fails. -/
def added : Step → List Descriptor
  | addClass c => [.ofClass c]
  | addEnum e => [.ofEnum e]
  | parse source origin => (descriptors source origin).toOption.getD []
  | resolve => []

variable {s : Step}

theorem apply_of_not_isResolve (h : s.isResolve = false) (g : TypeGraph) :
    s.apply g = g.addAll s.added := by
  cases s with
  | addClass c => rfl
  | addEnum e => rfl
  | resolve => simp [isResolve] at h
  | parse source origin =>
    cases hfound : descriptors source origin with
    | error fault =>
      rw [apply, run_parse_of_error g hfound, added, hfound]
      rfl
    | ok found =>
      obtain ⟨notices, hrun⟩ := run_parse_of_ok g hfound
      rw [apply, hrun, added, hfound]
      rfl

theorem apply_of_isResolve (h : s.isResolve = true) (g : TypeGraph) : s.apply g = g.resolve := by
  cases s <;> simp_all [isResolve, apply]

theorem exists_of_mem_added {source : List Char} {origin : Option String} {x : Descriptor}
    (h : x ∈ (parse source origin).added) :
    ∃ d ∈ admitted source origin, extract source d = .ok x := by
  cases hfound : descriptors source origin with
  | error fault => simp [added, hfound, Except.toOption] at h
  | ok found =>
    rw [added, hfound] at h
    exact exists_of_mem_descriptors hfound h

end Step

theorem find?_empty (k : DeclarationKind × String) : empty.find? k = none := by
  obtain ⟨kind, name⟩ := k
  cases kind <;> rfl

theorem find?_of_mem_classes {p : String × ClassType} (h : p ∈ g.classes.entries) :
    g.find? (.classLike, p.1) = some (.ofClass p.2) := by
  rw [find?, Table.get?_of_mem h, Option.map_some]

def after (g : TypeGraph) (steps : List Step) : TypeGraph := steps.foldl Step.apply g

theorem after_append (g : TypeGraph) (steps more : List Step) :
    g.after (steps ++ more) = (g.after steps).after more := List.foldl_append

section Runs
variable {steps : List Step}

/-- Resolution in the end does not tell whether there was one on the way. -/
theorem resolve_after (h : g.resolve = g'.resolve) (steps : List Step) :
    (g.after steps).resolve = (g'.after (steps.filter fun s => !s.isResolve)).resolve := by
  induction steps generalizing g g' with
  | nil => exact h
  | cons s steps ih =>
    rw [List.filter_cons]
    cases hs : s.isResolve with
    | true =>
      refine ih ?_
      rw [Step.apply_of_isResolve hs, resolve_resolve, h]
    | false =>
      refine ih ?_
      rw [Step.apply_of_not_isResolve hs, Step.apply_of_not_isResolve hs]
      exact resolve_addAll_congr h _

section Lookups
variable {P : DeclarationKind × String → Descriptor → Prop}

theorem forall_find?_addAll {xs : List Descriptor} (hadded : ∀ x ∈ xs, P x.key x)
    (h : ∀ k x, g.find? k = some x → P k x) : ∀ k x, (g.addAll xs).find? k = some x → P k x := by
  intro k x hfind
  by_cases hk : k ∈ xs.map (·.key)
  · obtain ⟨y, hy, rfl, hlast⟩ := find?_addAll_of_mem (g := g) hk
    obtain rfl := Option.some.inj (hfind.symm.trans hlast)
    exact hadded x hy
  · rw [find?_addAll_of_not_mem hk] at hfind
    exact h k x hfind

theorem forall_find?_apply {s : Step} (hadded : ∀ x ∈ s.added, P x.key x)
    (hresolve : ∀ k c subclasses, c.isSealed = true → P k (.ofClass c) →
      P k (.ofClass { c with subclasses }))
    (h : ∀ k x, g.find? k = some x → P k x) : ∀ k x, (s.apply g).find? k = some x → P k x := by
  cases hs : s.isResolve with
  | false =>
    rw [Step.apply_of_not_isResolve hs]
    exact forall_find?_addAll hadded h
  | true =>
    rw [Step.apply_of_isResolve hs]
    rintro ⟨kind, name⟩ x hfind
    cases kind with
    | enumLike => exact h _ x hfind
    | classLike =>
      rw [find?, classes_resolve, Table.get?_mapValues, Option.map_map,
        Option.map_eq_some_iff] at hfind
      obtain ⟨c, hc, rfl⟩ := hfind
      have hbefore : P (.classLike, name) (.ofClass c) := h _ _ (by rw [find?, hc]; rfl)
      rw [Function.comp_apply, resolved]
      split
      · exact hresolve _ _ _ ‹_› hbefore
      · exact hbefore

/-- Then it holds of all that is found after a history. -/
theorem forall_find?_after (hadded : ∀ s ∈ steps, ∀ x ∈ s.added, P x.key x)
    (hresolve : ∀ k c subclasses, c.isSealed = true → P k (.ofClass c) →
      P k (.ofClass { c with subclasses })) :
    ∀ k x, (after .empty steps).find? k = some x → P k x := by
  have hrun : ∀ g : TypeGraph, (∀ k x, g.find? k = some x → P k x) →
      ∀ k x, (g.after steps).find? k = some x → P k x := by
    induction steps with
    | nil => exact fun g h => h
    | cons s steps ih =>
      intro g h
      exact ih (fun s' hs' => hadded s' (List.mem_cons_of_mem s hs')) _
        (forall_find?_apply (hadded s List.mem_cons_self) hresolve h)
  refine hrun .empty fun k x hfind => ?_
  rw [find?_empty] at hfind
  simp at hfind

end Lookups

theorem forall_classes_after {P : ClassType → Prop}
    (hadded : ∀ s ∈ steps, ∀ c, .ofClass c ∈ s.added → P c)
    (hresolve : ∀ c subclasses, c.isSealed = true → P c → P { c with subclasses }) :
    ∀ c ∈ (after .empty steps).classes.values, P c := by
  intro c hc
  obtain ⟨p, hp, rfl⟩ := List.mem_map.1 hc
  have hall : ∀ k x, (after .empty steps).find? k = some x → ∀ c, x = .ofClass c → P c := by
    refine forall_find?_after ?_ ?_
    · rintro s hs x hx c rfl
      exact hadded s hs c hx
    · intro k c subclasses hsealed hc c' heq
      obtain rfl := Descriptor.ofClass.inj heq
      exact hresolve c subclasses hsealed (hc c rfl)
  exact hall _ _ (find?_of_mem_classes hp) _ rfl

/-- A class has no subclasses yet when it is added. -/
def IsFresh (steps : List Step) : Prop := ∀ c, .addClass c ∈ steps → c.subclasses = []

theorem subclasses_of_mem_added (h : IsFresh steps) {s : Step} (hs : s ∈ steps)
    (hc : .ofClass c ∈ s.added) : c.subclasses = [] := by
  cases s with
  | addClass c' =>
    obtain rfl : c = c' := by simpa [Step.added] using hc
    exact h c hs
  | addEnum e => simp [Step.added] at hc
  | resolve => simp [Step.added] at hc
  | parse source origin =>
    obtain ⟨d, -, hd⟩ := Step.exists_of_mem_added hc
    obtain ⟨-, text, -, rfl⟩ := Declaration.exists_of_extract_class hd
    rfl

theorem subclasses_of_mem_after (h : IsFresh steps) :
    ∀ c ∈ (after .empty steps).classes.values, c.isSealed = false → c.subclasses = [] := by
  refine forall_classes_after (fun s hs c hc _ => subclasses_of_mem_added h hs hc) ?_
  intro c subclasses hsealed _ hopen
  simp [hsealed] at hopen

theorem childrenOf_eq (g : TypeGraph) (parent : String) :
    g.childrenOf parent = (g.classes.values.filter (·.parent = some parent)).map (·.name) := by
  rw [childrenOf, Table.values, List.filter_map, List.map_map]
  exact List.map_congr_left fun p hp => g.classes_named p (List.mem_filter.1 hp).1

theorem subclasses_of_resolve (hresolve : g.resolve = g) (hc : c ∈ g.classes.values)
    (hsealed : c.isSealed = true) :
    c.subclasses = (g.classes.values.filter (·.parent = some c.name)).map (·.name) := by
  obtain ⟨p, hp, rfl⟩ := List.mem_map.1 hc
  have hname := g.classes_named p hp
  have hmapped : p ∈ (g.classes.mapValues (resolved g.childrenOf)).entries := by
    rwa [← classes_resolve, hresolve]
  obtain ⟨q, -, rfl⟩ := List.mem_map.1 hmapped
  rw [isSealed_resolved] at hsealed
  rw [← childrenOf_eq, ← hname, resolved, if_pos hsealed]

theorem names_eq_keys (g : TypeGraph) : g.classes.values.map (·.name) = g.classes.keys := by
  rw [Table.values, Table.keys, List.map_map]
  exact List.map_congr_left fun p hp => (g.classes_named p hp).symm

theorem names_nodup (g : TypeGraph) : (g.classes.values.map (·.name)).Nodup :=
  g.names_eq_keys ▸ g.classes.keys_nodup

/-- Only the last resolution of a history counts. It gives a sealed class as its subclasses, in the
order of the graph, the classes of which it is the parent, and no class else any; so no class is
listed twice, none is that the graph has not, and another resolution changes nothing. -/
theorem resolve_history (h : IsFresh steps) :
    let final := after .empty (steps ++ [.resolve])
    final = after .empty (steps.filter (fun s => !s.isResolve) ++ [.resolve]) ∧
    (∀ c ∈ final.classes.values, c.isSealed = true →
      c.subclasses = (final.classes.values.filter (·.parent = some c.name)).map (·.name) ∧
      c.subclasses.Nodup ∧ c.subclasses ⊆ final.classes.keys) ∧
    (∀ c ∈ final.classes.values, ∀ d ∈ final.classes.values, c.isSealed = true →
      d.isSealed = true → c ≠ d → c.subclasses.Disjoint d.subclasses) ∧
    (∀ c ∈ final.classes.values, c.isSealed = false → c.subclasses = []) ∧
    final.resolve = final := by
  intro final
  have hend (steps : List Step) :
      after .empty (steps ++ [.resolve]) = (after .empty steps).resolve :=
    after_append .empty steps [.resolve]
  have hresolve : final.resolve = final := by rw [show final = _ from hend steps, resolve_resolve]
  have hfresh : IsFresh (steps ++ [.resolve]) := fun c hc => h c (by simpa using hc)
  have hinj := List.inj_on_of_nodup_map final.names_nodup
  refine ⟨?_, fun c hc hsealed => ?_, fun c hc d hd hsealed hsealed' hne => ?_,
    subclasses_of_mem_after hfresh, hresolve⟩
  · rw [show final = _ from hend steps, hend]
    exact resolve_after rfl steps
  · rw [subclasses_of_resolve hresolve hc hsealed]
    refine ⟨rfl, final.names_nodup.sublist (List.filter_sublist.map _), fun name hname => ?_⟩
    rw [← final.names_eq_keys]
    exact (List.filter_sublist.map _).subset hname
  · rw [subclasses_of_resolve hresolve hc hsealed, subclasses_of_resolve hresolve hd hsealed',
      List.disjoint_left]
    intro name hname hname'
    -- A class of this name would have both as its parent.
    obtain ⟨e, he, rfl⟩ := List.mem_map.1 hname
    obtain ⟨e', he', heq⟩ := List.mem_map.1 hname'
    rw [List.mem_filter, decide_eq_true_eq] at he he'
    obtain rfl := hinj he'.1 he.1 heq
    exact hne (hinj hc hd (Option.some.inj (he.2.symm.trans he'.2)))

def movedClass : List Step :=
  [.addClass { name := "Base", isSealed := true },
    .addClass { name := "AppSettings", parent := some "Base" }, .resolve,
    .addClass { name := "Settings", isSealed := true },
    .parse "class AppSettings : Settings() \x7b \x7d".toList none]

theorem resolve_history_movedClass :
    IsFresh movedClass ∧ let final := after .empty (movedClass ++ [.resolve])
    final.classes.values.map (·.subclasses) = [[], [], ["AppSettings"]] ∧
      final.resolve = final := by
  have hfresh : IsFresh movedClass := by
    intro c hc
    simp only [movedClass, List.mem_cons, Step.addClass.injEq, reduceCtorEq, List.not_mem_nil,
      or_false, false_or] at hc
    rcases hc with rfl | rfl | rfl <;> rfl
  exact ⟨hfresh, by decide +kernel, (resolve_history hfresh).2.2.2.2⟩

end Runs

end TypeGraph

end KotlinSchema
