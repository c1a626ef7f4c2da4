import KotlinSchema.Schema.Builder

/-! What building does to a builder. The result of a step is a function of the graph alone, and what
it does besides is a list of effects. `Derives` says by rules what a list of effects comes to; the
recursion of `define` follows these rules from every builder. -/

namespace KotlinSchema.Building
open Schema

/-- What a step does besides its result. -/
inductive Effect where
  | define (className : String)
  | report (typeName : String)
  | notice (n : Notice)
  deriving DecidableEq, Repr

namespace Effect

def ofType (g : TypeGraph) (typeName : String) : List Effect :=
  match meaning g typeName with
  | .classType _ => [.define typeName]
  | .unresolved => [.report typeName]
  | .enumType _ | .primitive _ => []

def ofClass (g : TypeGraph) (c : ClassType) : List Effect :=
  if c.isSealed then
    (if c.subclasses.isEmpty then [.notice (.noSubclasses c.name)] else []) ++
      (variants g c).map .define
  else (visibleProperties g c).flatMap fun p => ofType g p.typeName

end Effect

section Steps
variable {names : List String} (define : String → Step names Unit) (g : TypeGraph)

def step : Effect → Step names Unit
  | .define className => define className
  | .report typeName => report typeName
  | .notice n => notice n

def steps : List Effect → Step names Unit
  | [] => return ()
  | e :: es => do
    step define e
    steps es

theorem steps_append (es fs : List Effect) :
    steps define (es ++ fs) = (do steps define es; steps define fs) := by
  induction es with
  | nil => simp [steps]
  | cons e es ih => simp [steps, ih]

theorem mapM_eq_steps {α β : Type} {f : α → Step names β} {effects : α → List Effect}
    {value : α → β} (h : ∀ a, f a = (do steps define (effects a); return value a))
    (as : List α) :
    as.mapM f = (do steps define (as.flatMap effects); return as.map value) := by
  induction as with
  | nil => simp [steps]
  | cons a as ih => simp [ih, h, steps_append]

theorem typeSchema_eq (typeName : String) :
    typeSchema define g typeName =
      (do steps define (Effect.ofType g typeName); return ofType g typeName) := by
  unfold typeSchema Effect.ofType ofType
  cases meaning g typeName <;> simp [steps, step]

theorem propertySchema_eq (p : Property) :
    propertySchema define g p =
      (do steps define (Effect.ofType g p.typeName); return ofProperty g p) := by
  simp [propertySchema, typeSchema_eq, ofProperty]

theorem objectSchema_eq (c : ClassType) :
    objectSchema define g c =
      (do steps define ((visibleProperties g c).flatMap fun p => Effect.ofType g p.typeName)
          return ofObject g c) := by
  have h : ∀ p : Property, (do return (p, ← propertySchema define g p)) =
      (do steps define (Effect.ofType g p.typeName); return (p, ofProperty g p)) := by
    intro p
    simp [propertySchema_eq]
  rw [objectSchema, mapM_eq_steps define h]
  simp [ofObject]

theorem variantsSchema_eq (c : ClassType) :
    variantsSchema define g c =
      (do steps define ((if c.subclasses.isEmpty then [.notice (.noSubclasses c.name)] else []) ++
            (variants g c).map .define)
          return ofVariants g c) := by
  have h : ∀ name : String, (do define name; return reference name) =
      (do steps define [.define name]; return reference name) := by
    intro name
    simp [steps, step]
  simp only [variantsSchema, mapM_eq_steps define h, ofVariants, steps_append]
  by_cases hc : c.subclasses.isEmpty <;> simp [hc, steps, step, List.map_eq_flatMap]

theorem classSchema_eq (c : ClassType) :
    classSchema define g c =
      (do steps define (Effect.ofClass g c); return Schema.ofClass g c) := by
  unfold classSchema Effect.ofClass Schema.ofClass
  cases c.isSealed
  · simpa using objectSchema_eq define g c
  · simpa using variantsSchema_eq define g c

end Steps

def apply (g : TypeGraph) (s : Building) : Effect → Building
  | .define className => (define g className s).1
  | .report typeName =>
    if typeName ∈ s.builder.reported then s
    else ⟨{ s.builder with reported := s.builder.reported ++ [typeName] },
      s.notices ++ [.unresolvedType typeName]⟩
  | .notice n => { s with notices := s.notices ++ [n] }

def applyAll (g : TypeGraph) (s : Building) (es : List Effect) : Building := es.foldl (apply g) s

theorem val_steps {names : List String} {inner : String → Step names Unit} {g : TypeGraph}
    (h : ∀ n s, (inner n s).2.1 = (define g n s.1).1) (es : List Effect) (s : Above names) :
    (steps inner es s).2.1 = applyAll g s.1 es := by
  induction es generalizing s with
  | nil => rfl
  | cons e es ih =>
    have he : (step inner e s).2.1 = apply g s.1 e := by
      cases e with
      | define n => exact h n s
      | report typeName =>
        simp only [step, report, apply]
        split <;> rfl
      | notice n => rfl
    change (steps inner es (step inner e s).2).2.1 = applyAll g (apply g s.1 e) es
    rw [ih, he]

theorem define_of_missing {g : TypeGraph} {name : String} (h : g.classes.get? name = none)
    (s : Building) : (define g name s).1 = s := by
  rw [define]
  split
  · rfl
  · simp_all

theorem define_of_mem (g : TypeGraph) {name : String} {s : Building}
    (h : name ∈ s.builder.defined) : (define g name s).1 = s := by
  rw [define]
  split
  · rfl
  · rw [dif_pos h]

theorem define_of_fresh {g : TypeGraph} {name : String} {c : ClassType} {s : Building}
    (hg : g.classes.get? name = some c) (hd : name ∉ s.builder.defined) :
    (define g name s).1 =
      (applyAll g (s.store name .empty) (Effect.ofClass g c)).store name (Schema.ofClass g c) := by
  rw [define]
  split
  · simp_all
  · rename_i c' hc'
    obtain rfl : c' = c := by simpa [hc'] using hg
    rw [dif_neg hd]
    simp only [classSchema_eq]
    exact congrArg (fun t => store t name (Schema.ofClass g c'))
      (val_steps (fun n t => rfl) (Effect.ofClass g c') _)

/-- What a list of effects makes of a builder at work. The effects of a class are done while its
slot is empty. -/
inductive Derives (g : TypeGraph) : Building → List Effect → Building → Prop where
  | nil (s : Building) : Derives g s [] s
  | cons {s t u : Building} {e : Effect} {es : List Effect} :
    Derives g s [e] t → Derives g t es u → Derives g s (e :: es) u
  | reported {s : Building} {typeName : String} :
    typeName ∈ s.builder.reported → Derives g s [.report typeName] s
  | report {s : Building} {typeName : String} :
    typeName ∉ s.builder.reported →
      Derives g s [.report typeName]
        ⟨{ s.builder with reported := s.builder.reported ++ [typeName] },
          s.notices ++ [.unresolvedType typeName]⟩
  | notice (s : Building) (n : Notice) :
    Derives g s [.notice n] { s with notices := s.notices ++ [n] }
  | missing {s : Building} {name : String} :
    g.classes.get? name = none → Derives g s [.define name] s
  | defined {s : Building} {name : String} :
    name ∈ s.builder.defined → Derives g s [.define name] s
  | define {s t : Building} {name : String} {c : ClassType} :
    g.classes.get? name = some c → name ∉ s.builder.defined →
      Derives g (s.store name .empty) (Effect.ofClass g c) t →
      Derives g s [.define name] (t.store name (Schema.ofClass g c))

theorem derives_report (g : TypeGraph) (s : Building) (typeName : String) :
    Derives g s [.report typeName] (apply g s (.report typeName)) := by
  by_cases h : typeName ∈ s.builder.reported
  · simpa only [apply, if_pos h] using Derives.reported h
  · simpa only [apply, if_neg h] using Derives.report h

theorem defined_subset_apply (g : TypeGraph) (s : Building) (e : Effect) :
    s.builder.defined ⊆ (apply g s e).builder.defined := by
  cases e with
  | define n => exact (define g n s).2
  | report typeName =>
    simp only [apply]
    split <;> exact List.Subset.refl _
  | notice n => exact List.Subset.refl _

theorem derives_applyAll_of {g : TypeGraph} {names : List String}
    (h : ∀ n s, names ⊆ s.builder.defined → Derives g s [.define n] (define g n s).1)
    (es : List Effect) {s : Building} (hs : names ⊆ s.builder.defined) :
    Derives g s es (applyAll g s es) := by
  induction es generalizing s with
  | nil => exact .nil s
  | cons e es ih =>
    have he : Derives g s [e] (apply g s e) := by
      cases e with
      | define n => exact h n s hs
      | report typeName => exact derives_report g s typeName
      | notice n => exact .notice s n
    exact .cons he (ih (List.Subset.trans hs (defined_subset_apply g s e)))

theorem derives_define (g : TypeGraph) (name : String) (s : Building) :
    Derives g s [.define name] (define g name s).1 := by
  induction hm : (unseen g.classes.keys s.builder.defined).length using Nat.strongRecOn
    generalizing name s with
  | ind m ih =>
    cases hg : g.classes.get? name with
    | none =>
      rw [define_of_missing hg]
      exact .missing hg
    | some c =>
      by_cases hd : name ∈ s.builder.defined
      · rw [define_of_mem g hd]
        exact .defined hd
      · rw [define_of_fresh hg hd]
        -- What is defined below has this slot as well, so fewer classes are left without one.
        refine .define hg hd (derives_applyAll_of ?_ _ (List.Subset.refl _))
        intro n t ht
        refine ih _ ?_ n t rfl
        rw [← hm]
        exact length_unseen_lt (Table.mem_keys_of_get? hg) hd
          (fun x hx => ht (Builder.subset_defined_store _ _ _ hx))
          (ht (Builder.mem_defined_store _ _ _))

theorem derives_applyAll (g : TypeGraph) (s : Building) (es : List Effect) :
    Derives g s es (applyAll g s es) :=
  derives_applyAll_of (fun n t _ => derives_define g n t) es (List.nil_subset _)

def Effect.ofRequest (g : TypeGraph) : Builder.Request → List Effect
  | .document root => if g.classes.contains root then [.define root] else []
  | .definition className => [.define className]
  | .property p => ofType g p.typeName
  | .type typeName => ofType g typeName
  | .enum _ => []

theorem take_steps {α : Type} (g : TypeGraph) (b : Builder) (es : List Effect) (a : α) :
    b.take (do steps (defineStep g) es; return a) =
      (a, (applyAll g ⟨b, []⟩ es).builder, (applyAll g ⟨b, []⟩ es).notices) := by
  have hdefine : ∀ (n : String) (s : Above b.defined),
      (defineStep g n s).2.1 = (define g n s.1).1 := fun _ _ => rfl
  rw [← val_steps hdefine es ⟨⟨b, []⟩, List.Subset.refl _⟩]
  rfl

theorem take_defineStep (g : TypeGraph) (b : Builder) (name : String) :
    b.take (defineStep g name) =
      ((), (applyAll g ⟨b, []⟩ [.define name]).builder,
        (applyAll g ⟨b, []⟩ [.define name]).notices) := rfl

/-- Answering a request does what its effects come to. -/
theorem applyAll_ofRequest (g : TypeGraph) (b : Builder) (r : Builder.Request) :
    applyAll g ⟨b, []⟩ (Effect.ofRequest g r) = ⟨(b.answer g r).1, (b.answer g r).2.2⟩ := by
  cases r with
  | document root =>
    simp only [Builder.answer, Builder.build, Effect.ofRequest, take_defineStep]
    cases g.classes.contains root <;> rfl
  | definition className => rfl
  | property p => simp only [Builder.answer, propertySchema_eq, take_steps, Effect.ofRequest]
  | type typeName => simp only [Builder.answer, typeSchema_eq, take_steps, Effect.ofRequest]
  | enum e => rfl

theorem builder_answer (g : TypeGraph) (b : Builder) (r : Builder.Request) :
    (b.answer g r).1 = (applyAll g ⟨b, []⟩ (Effect.ofRequest g r)).builder := by
  rw [applyAll_ofRequest]

theorem answer_property (g : TypeGraph) (b : Builder) (p : Property) :
    (b.answer g (.property p)).2.1 = .ok (some (ofProperty g p).toJson) := by
  simp only [Builder.answer, propertySchema_eq, take_steps]

end KotlinSchema.Building

namespace KotlinSchema

/-- A graph in which a class refers to itself through a sealed one. One variant is missing, one name
stands for an enum as well as for a class, and one property is hidden. -/
def cyclicGraph : TypeGraph := TypeGraph.empty.addAll
  [.ofClass { name := "Module", properties :=
      [{ name := "kind", typeName := "Kind" }, { name := "base", typeName := "Base" },
        { name := "secret", typeName := "Secret", annotations := ["HiddenFromCompletion"] }] },
    .ofClass { name := "Base", isSealed := true, subclasses := ["Module", "Missing", "Leaf"] },
    .ofClass { name := "Leaf", parent := some "Module" }, .ofClass { name := "Kind" },
    .ofClass { name := "Secret" }, .ofEnum { name := "Kind" }]

end KotlinSchema
