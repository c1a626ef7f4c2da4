import KotlinSchema.Proofs.Builder.Memo
import KotlinSchema.Proofs.Builder.Preorder
import KotlinSchema.Proofs.Model.Tables

/-! References between definitions. Whatever a builder has been asked for, each reference in what it
holds and in what it has answered leads to a class that it defines, and no slot is left empty. While
a class is being defined its references may lead to classes still to come: what the classes visited
since then refer to is visited before the class is finished. -/

namespace KotlinSchema

/-- A value is that of a member with a certain key, at any depth. Below the keys in `named` stand
objects whose own keys are names, to be read as such; the flag tells whether this is such an
object. -/
inductive Json.Occurs (named : List String) (key : String) : Bool → Json → Json → Prop where
  | here {members : List (String × Json)} {v : Json} :
    (key, v) ∈ members → Occurs named key false (.obj members) v
  | member {names : Bool} {members : List (String × Json)} {k : String} {w v : Json} :
    (k, w) ∈ members → Occurs named key (!names && named.contains k) w v →
      Occurs named key names (.obj members) v
  | item {names : Bool} {items : List Json} {w v : Json} :
    w ∈ items → Occurs named key false w v → Occurs named key names (.arr items) v

namespace Schema
open Json (Occurs)

def refKey : String := "$ref"

/-- The members whose keys are not words of the schema language but names: of properties, of the
values of an enum, of classes. -/
def namedMembers : List String := ["properties", "x-intellij-enum-metadata", "$defs"]

def refTo (name : String) : Json := .str ("#/$defs/" ++ name)

def RefersTo (target : String → Prop) (names : Bool) (j : Json) : Prop :=
  ∀ v, Occurs namedMembers refKey names j v → ∃ name, target name ∧ v = refTo name

section Values
variable {target : String → Prop} {names : Bool}

theorem refersTo_str (s : String) : RefersTo target names (.str s) := nofun

theorem refersTo_bool (b : Bool) : RefersTo target names (.bool b) := nofun

theorem refersTo_int (n : Int) : RefersTo target names (.int n) := nofun

theorem refersTo_arr {items : List Json} (h : ∀ w ∈ items, RefersTo target false w) :
    RefersTo target names (.arr items) := by
  intro v hv
  cases hv with
  | item hw hv => exact h _ hw v hv

theorem refersTo_obj {members : List (String × Json)}
    (h : ∀ m ∈ members, (names = false → m.1 ≠ refKey) ∧
      RefersTo target (!names && namedMembers.contains m.1) m.2) :
    RefersTo target names (.obj members) := by
  intro v hv
  cases hv with
  | here hm => exact absurd rfl ((h _ hm).1 rfl)
  | member hm hv => exact (h _ hm).2 v hv

theorem refersTo_strings (ss : List String) : RefersTo target names (.arr (ss.map .str)) :=
  refersTo_arr fun w hw => by
    obtain ⟨s, -, rfl⟩ := List.mem_map.1 hw
    exact refersTo_str s

theorem RefersTo.mono {target' : String → Prop} {j : Json} (h : RefersTo target names j)
    (ht : ∀ name, target name → target' name) : RefersTo target' names j := fun v hv =>
  (h v hv).imp fun name hn => ⟨ht name hn.1, hn.2⟩

end Values

section Schemas
variable {target : String → Prop} {s : Schema}

theorem refersTo_insert {key : String} {v : Json} (hs : RefersTo target false s.toJson)
    (hkey : key ≠ refKey) (hv : RefersTo target (namedMembers.contains key) v) :
    RefersTo target false (toJson (s.insert key v)) := by
  intro u hu
  cases hu with
  | here hm =>
    rcases Table.mem_insert hm with hm | hm
    · exact absurd (Prod.mk.inj hm).1.symm hkey
    · exact hs u (.here hm)
  | member hm hu =>
    rcases Table.mem_insert hm with hm | hm
    · obtain ⟨rfl, rfl⟩ := Prod.mk.inj hm
      exact hv u hu
    · exact hs u (.member hm hu)

theorem refersTo_ofList {names : Bool} {members : List (String × Json)}
    (h : ∀ m ∈ members, (names = false → m.1 ≠ refKey) ∧
      RefersTo target (!names && namedMembers.contains m.1) m.2) :
    RefersTo target names (toJson (.ofList members)) :=
  refersTo_obj fun m hm => h m (Table.mem_ofList hm)

theorem refersTo_reference {name : String} (h : target name) :
    RefersTo target false (reference name).toJson := by
  intro v hv
  cases hv with
  | here hm =>
    have hv : v = refTo name := (Prod.mk.inj (List.mem_singleton.1 (Table.mem_ofList hm))).2
    exact ⟨name, h, hv⟩
  | member hm hv =>
    obtain ⟨-, rfl⟩ := Prod.mk.inj (List.mem_singleton.1 (Table.mem_ofList hm))
    exact refersTo_str _ v hv

theorem refersTo_if {p : Prop} [Decidable p] {s' : Schema} (hs : RefersTo target false s.toJson)
    (hs' : RefersTo target false s'.toJson) :
    RefersTo target false (toJson (if p then s else s')) := by
  split
  · exact hs
  · exact hs'

theorem refersTo_named {α : Type} {key : α → String} {value : α → Json} {xs : List α}
    (h : ∀ x ∈ xs, RefersTo target false (value x)) :
    RefersTo target true (toJson (.ofList (xs.map fun x => (key x, value x)))) := by
  refine refersTo_ofList fun m hm => ?_
  obtain ⟨x, hx, rfl⟩ := List.mem_map.1 hm
  exact ⟨by simp, h x hx⟩

theorem refersTo_ofEnum (e : EnumType) : RefersTo target false (ofEnum e).toJson := by
  have hvalues : RefersTo target false
      (toJson (.ofList [("enum", .arr (e.active.map fun x => .str x.schemaValue))])) := by
    refine refersTo_ofList (List.forall_mem_singleton.2 ⟨fun _ => by simp [refKey], ?_⟩)
    simpa [Function.comp_def] using refersTo_strings (e.active.map (·.schemaValue))
  have hdocs (doc? : EnumEntry → Option (String × Json))
      (h : ∀ x m, doc? x = some m → ∃ doc, m.2 = .str doc) :
      RefersTo target true (toJson (.ofList (e.active.filterMap doc?))) := by
    refine refersTo_ofList fun m hm => ⟨by simp, ?_⟩
    obtain ⟨x, -, hx⟩ := List.mem_filterMap.1 hm
    obtain ⟨doc, hdoc⟩ := h x m hx
    rw [hdoc]
    exact refersTo_str doc
  have hmetadata : "x-intellij-enum-metadata" ≠ refKey := by simp [refKey]
  have hsensitive : "x-intellij-enum-order-sensitive" ≠ refKey := by simp [refKey]
  have hdocumented := fun p [Decidable p] doc? h => refersTo_if (p := p) hvalues
    (refersTo_insert hvalues hmetadata (hdocs doc? h))
  refine refersTo_if (refersTo_insert (hdocumented _ _ ?_) hsensitive (refersTo_bool true))
    (hdocumented _ _ ?_)
  all_goals
    intro x m hx
    split at hx
    · simp at hx
    · simp at hx
    · exact ⟨_, congrArg Prod.snd (Option.some.inj hx).symm⟩

theorem refersTo_ofType (g : TypeGraph) (typeName : String) :
    RefersTo (fun name => name = typeName ∧ ∃ c, meaning g typeName = .classType c) false
      (ofType g typeName).toJson := by
  unfold ofType
  cases h : meaning g typeName with
  | enumType e => exact refersTo_ofEnum e
  | classType c => exact refersTo_reference ⟨rfl, c, rfl⟩
  | primitive name =>
    exact refersTo_ofList (List.forall_mem_singleton.2 ⟨by simp [refKey], refersTo_str name⟩)
  | unresolved =>
    refine refersTo_ofList (List.forall_mem_cons.2 ⟨⟨by simp [refKey], refersTo_str _⟩, ?_⟩)
    exact List.forall_mem_singleton.2 ⟨by simp [refKey], refersTo_str _⟩

theorem refersTo_listOf (hs : RefersTo target false s.toJson) :
    RefersTo target false (listOf s).toJson := by
  refine refersTo_ofList ?_
  simp only [List.forall_mem_cons, List.not_mem_nil, false_implies, implies_true, and_true]
  exact ⟨⟨by simp [refKey], refersTo_str _⟩, ⟨by simp [refKey], hs⟩,
    ⟨by simp [refKey], refersTo_bool _⟩⟩

theorem refersTo_mapOf (hs : RefersTo target false s.toJson) :
    RefersTo target false (mapOf s).toJson := by
  have hpatterns : RefersTo target false (toJson (.ofList [(mapKeyPattern, s.toJson)])) :=
    refersTo_ofList (List.forall_mem_singleton.2 ⟨by simp [refKey, mapKeyPattern], hs⟩)
  refine refersTo_listOf (refersTo_ofList ?_)
  simp only [List.forall_mem_cons, List.not_mem_nil, false_implies, implies_true, and_true]
  exact ⟨⟨by simp [refKey], refersTo_str _⟩, ⟨by simp [refKey], hpatterns⟩,
    ⟨by simp [refKey], refersTo_bool _⟩, ⟨by simp [refKey], refersTo_int _⟩,
    ⟨by simp [refKey], refersTo_int _⟩⟩

theorem refersTo_withDoc (doc : Option String) (hs : RefersTo target false s.toJson) :
    RefersTo target false (withDoc doc s).toJson := by
  unfold withDoc
  split
  · exact hs
  · exact hs
  · exact refersTo_insert (refersTo_insert hs (by simp [refKey]) (refersTo_str _))
      (by simp [refKey]) (refersTo_str _)

theorem refersTo_withTargets (platforms productTypes : List String)
    (hs : RefersTo target false s.toJson) :
    RefersTo target false (withTargets platforms productTypes s).toJson := by
  have hnames : ∀ key names, key ≠ refKey →
      ∀ m ∈ (if List.isEmpty names then [] else [(key, Json.arr (names.map .str))]),
        m.1 ≠ refKey ∧ RefersTo target (namedMembers.contains m.1) m.2 := by
    intro key names hkey m hm
    split at hm
    · simp at hm
    · obtain rfl := List.mem_singleton.1 hm
      exact ⟨hkey, refersTo_strings names⟩
  refine refersTo_if hs (refersTo_insert hs (by simp [refKey]) (refersTo_obj fun m hm => ?_))
  rcases List.mem_append.1 hm with hm | hm
  · have h := hnames "platforms" _ (by simp [refKey]) m hm
    exact ⟨fun _ => h.1, h.2⟩
  · have h := hnames "productTypes" _ (by simp [refKey]) m hm
    exact ⟨fun _ => h.1, h.2⟩

theorem refersTo_ofProperty (g : TypeGraph) (p : Property) :
    RefersTo (fun name => name = p.typeName ∧ ∃ c, meaning g p.typeName = .classType c) false
      (ofProperty g p).toJson := by
  have htype := refersTo_ofType g p.typeName
  refine refersTo_withTargets _ _ (refersTo_withDoc _ ?_)
  split
  · exact refersTo_listOf htype
  · split
    · exact refersTo_mapOf htype
    · exact htype

theorem refersTo_withMember {present : Bool} {key : String} {v : Json}
    (hs : RefersTo target false s.toJson) (hkey : key ≠ refKey)
    (hv : RefersTo target (namedMembers.contains key) v) :
    RefersTo target false (withMember present key v s).toJson :=
  refersTo_if (refersTo_insert hs hkey hv) hs

theorem head?_modifierPattern (name : String) :
    (modifierPattern name).toList.head? = some '^' := by
  unfold modifierPattern
  split <;> simp

theorem refersTo_objectOf {g : TypeGraph} {c : ClassType} {shown : List (Property × Schema)}
    (h : ∀ p ∈ shown, RefersTo target false p.2.toJson) :
    RefersTo target false (objectOf g c shown).toJson := by
  have hbase : RefersTo target false (toJson (.ofList
      [("type", .str "object"), ("additionalProperties", .bool false)])) := by
    refine refersTo_ofList (List.forall_mem_cons.2 ⟨⟨by simp [refKey], refersTo_str _⟩, ?_⟩)
    exact List.forall_mem_singleton.2 ⟨by simp [refKey], refersTo_bool _⟩
  have hpatterns : RefersTo target false (toJson (.ofList
      ((shown.filter (·.1.isModifierAware)).map fun p =>
        (modifierPattern p.1.name, p.2.toJson)))) := by
    refine refersTo_ofList fun m hm => ?_
    obtain ⟨p, hp, rfl⟩ := List.mem_map.1 hm
    -- A pattern is no word of the schema language: it begins with a circumflex.
    have hhead := head?_modifierPattern p.1.name
    have hnamed : namedMembers.contains (modifierPattern p.1.name) = false := by
      by_contra hc
      simp only [namedMembers, List.contains_cons, List.contains_nil, Bool.or_false,
        Bool.not_eq_false, Bool.or_eq_true, beq_iff_eq] at hc
      rcases hc with hc | hc | hc <;> simp [hc] at hhead
    refine ⟨fun _ (hc : modifierPattern p.1.name = refKey) => by simp [hc, refKey] at hhead, ?_⟩
    rw [hnamed]
    exact h p (List.mem_filter.1 hp).1
  refine refersTo_withMember (refersTo_withMember (refersTo_withMember (refersTo_withMember hbase
    (by simp [refKey]) (refersTo_named h)) (by simp [refKey]) hpatterns) (by simp [refKey])
    (refersTo_strings _)) (by simp [refKey]) (refersTo_str _)

theorem meaning_eq_classType {g : TypeGraph} {typeName : String} {c : ClassType}
    (h : meaning g typeName = .classType c) :
    g.enums.get? typeName = none ∧ g.classes.get? typeName = some c := by
  unfold meaning at h
  split at h
  · simp at h
  · rename_i henum
    split at h
    · rename_i c' hclass
      obtain rfl := Meaning.classType.inj h
      exact ⟨henum, hclass⟩
    · split at h
      · simp at h
      · split at h <;> simp at h

theorem refersTo_ofClass {g : TypeGraph} {name : String} {c : ClassType}
    (hg : g.classes.get? name = some c) :
    RefersTo (· ∈ g.references name) false (ofClass g c).toJson := by
  simp only [ofClass, TypeGraph.references, hg]
  split
  · refine refersTo_ofList (List.forall_mem_singleton.2 ⟨by simp [refKey], refersTo_arr ?_⟩)
    simp only [List.map_map, List.forall_mem_map, Function.comp_apply]
    exact fun n hn => refersTo_reference hn
  · refine refersTo_objectOf fun s hs => ?_
    obtain ⟨p, hp, rfl⟩ := List.mem_map.1 hs
    refine (refersTo_ofProperty g p).mono fun n hn => ?_
    obtain ⟨rfl, c', hc'⟩ := hn
    obtain ⟨henum, hclass⟩ := meaning_eq_classType hc'
    refine List.mem_filter.2 ⟨List.mem_map_of_mem hp, ?_⟩
    simp [Table.contains, henum, hclass]

end Schemas

def IsChoice (s : Schema) (names : List String) : Prop :=
  s.entries = [("anyOf", .arr (names.map fun n => .obj [(refKey, refTo n)]))]

def IsObject (s : Schema) : Prop :=
  s.get? "type" = some (.str "object") ∧ s.get? "additionalProperties" = some (.bool false)

theorem isChoice_ofVariants (g : TypeGraph) (c : ClassType) :
    IsChoice (ofVariants g c) (variants g c) := by
  simp only [IsChoice, ofVariants, variantsOf, List.map_map]
  rfl

theorem isObject_objectOf (g : TypeGraph) (c : ClassType) (shown : List (Property × Schema)) :
    IsObject (objectOf g c shown) := by
  have hmember : ∀ {present key v} {s : Schema}, key ≠ "type" → key ≠ "additionalProperties" →
      IsObject s → IsObject (withMember present key v s) := by
    intro present key v s ht ha hs
    unfold withMember
    split
    · exact ⟨by rw [Table.get?_insert, if_neg ht.symm, hs.1],
        by rw [Table.get?_insert, if_neg ha.symm, hs.2]⟩
    · exact hs
  exact hmember (by simp) (by simp) (hmember (by simp) (by simp) (hmember (by simp) (by simp)
    (hmember (by simp) (by simp) ⟨rfl, rfl⟩)))

theorem not_isChoice_of_isObject {s : Schema} (h : IsObject s) (names : List String) :
    ¬IsChoice s names := by
  intro hc
  have htype := h.1
  simp [Table.get?, show s.entries = _ from hc] at htype

theorem entries_ne_nil_of_isObject {s : Schema} (h : IsObject s) : s.entries ≠ [] := by
  intro hnil
  have htype := h.1
  simp [Table.get?, hnil] at htype

theorem references_of_sealed {g : TypeGraph} {name : String} {c : ClassType}
    (hg : g.classes.get? name = some c) (hs : c.isSealed = true) :
    g.references name = variants g c := by
  simp only [TypeGraph.references, hg, hs, if_true, variants]

end Schema

namespace Builder
open Schema

/-- What the definitions refer to is defined as well. -/
def Closed (g : TypeGraph) (b : Builder) : Prop :=
  ∀ name ∈ b.defined, ∀ n ∈ g.references name, n ∈ b.defined

variable {g : TypeGraph} {b b' : Builder}

theorem Extends.defined_subset (h : Extends g b b') : b.defined ⊆ b'.defined := by
  intro name hname
  obtain ⟨d, hd⟩ := (mem_defined_iff b name).1 hname
  exact (mem_defined_iff b' name).2 ⟨d, h.kept name d hd⟩

/-- Effects leave a closed builder closed, and what they ask for is then defined. -/
theorem closed_applyAll {s : Building} (h : Closed g s.builder) (es : List Building.Effect) :
    Closed g (Building.applyAll g s es).builder ∧
      ∀ n ∈ es.filterMap (Building.Effect.target? g),
        n ∈ (Building.applyAll g s es).builder.defined := by
  obtain ⟨order, hdefined, horder⟩ := (Building.derives_applyAll g s es).preorder
  simp only [Closed, hdefined, List.mem_append]
  refine ⟨fun name hname n hn => ?_, fun n hn => horder.mem_of_mem_pending hn⟩
  rcases hname with hname | hname
  · exact .inl (h name hname n hn)
  · exact horder.mem_of_mem_next hname hn

theorem closed_answer (h : Closed g b) (r : Request) : Closed g (b.answer g r).1 := by
  rw [Building.builder_answer]
  exact (closed_applyAll h _).1

theorem closed_answerAll (h : Closed g b) (rs : List Request) : Closed g (b.answerAll g rs) := by
  induction rs generalizing b with
  | nil => exact h
  | cons r rs ih => exact ih (closed_answer h r)

theorem closed_empty (g : TypeGraph) : Closed g {} := by
  simp [Closed, defined, Table.keys, Table.empty]

theorem refersTo_definition (hb : Closed g b) {name : String} {c : ClassType}
    (hname : name ∈ b.defined) (hg : g.classes.get? name = some c) :
    RefersTo (· ∈ b.defined) false (ofClass g c).toJson :=
  (refersTo_ofClass hg).mono fun n hn => hb name hname n hn

theorem refersTo_document (hb : ∀ d ∈ b.definitions.entries,
    RefersTo (· ∈ b.defined) false d.2.toJson) {root : String} (hroot : root ∈ b.defined) :
    RefersTo (· ∈ b.defined) false (b.document root) := by
  have hdefinitions : RefersTo (· ∈ b.defined) true
      (.obj (b.definitions.entries.map fun d => (d.1, d.2.toJson))) := by
    refine refersTo_obj fun m hm => ?_
    obtain ⟨d, hd, rfl⟩ := List.mem_map.1 hm
    exact ⟨by simp, hb d hd⟩
  refine refersTo_obj ?_
  simp only [List.forall_mem_cons, List.not_mem_nil, false_implies, implies_true, and_true]
  exact ⟨⟨by simp [refKey], refersTo_str _⟩, ⟨by simp [refKey], refersTo_str _⟩,
    ⟨by simp [refKey], refersTo_str _⟩, ⟨by simp [refKey], refersTo_str _⟩,
    ⟨by simp [refKey], refersTo_arr (by simpa using refersTo_reference hroot)⟩,
    ⟨by simp [refKey], hdefinitions⟩⟩

theorem refersTo_answer (hb : Closed g b) (hmade : Extends g {} b) {r : Request} {json : Json}
    (h : (b.answer g r).2.1 = .ok (some json)) :
    RefersTo (· ∈ (b.answer g r).1.defined) false json := by
  have hafter := closed_answer hb r
  have htargets := (closed_applyAll (s := ⟨b, []⟩) hb (Building.Effect.ofRequest g r)).2
  have hdefinitions : ∀ d ∈ (b.answer g r).1.definitions.entries,
      RefersTo (· ∈ (b.answer g r).1.defined) false d.2.toJson := by
    intro d hd
    have hget := Table.get?_of_mem hd
    obtain ⟨c, hc, hd⟩ := ((hmade.trans (extends_answer g b r)).made d.1 d.2 hget).resolve_left
      (by simp [Table.get?, Table.empty])
    exact hd ▸ refersTo_definition hafter ((mem_defined_iff _ _).2 ⟨d.2, hget⟩) hc
  rw [← Building.builder_answer] at htargets
  -- The schema of a type refers to a class that the request has asked for.
  have htype : ∀ {typeName : String},
      Building.Effect.ofRequest g r = Building.Effect.ofType g typeName →
      ∀ n, (n = typeName ∧ ∃ c, meaning g typeName = .classType c) →
        n ∈ (b.answer g r).1.defined := by
    rintro typeName hr n ⟨rfl, c, hc⟩
    obtain ⟨henum, hclass⟩ := meaning_eq_classType hc
    refine htargets n ?_
    rw [hr, Building.filterMap_target?_ofType]
    simp [Table.contains, henum, hclass]
  cases r with
  | document root =>
    have hroot : g.classes.contains root = true := by
      by_contra hroot
      simp [answer, build, hroot] at h
    obtain rfl : (answer g b (.document root)).1.document root = json := by
      simpa [answer, build, hroot] using h
    refine refersTo_document hdefinitions (htargets root ?_)
    simp [Building.Effect.ofRequest, Building.Effect.target?, hroot]
  | definition className => simp [answer] at h
  | property p =>
    simp only [answer, Building.propertySchema_eq, Building.take_steps] at h
    obtain rfl := Option.some.inj (Except.ok.inj h)
    exact (refersTo_ofProperty g p).mono (htype rfl)
  | type typeName =>
    simp only [answer, Building.typeSchema_eq, Building.take_steps] at h
    obtain rfl := Option.some.inj (Except.ok.inj h)
    exact (refersTo_ofType g typeName).mono (htype rfl)
  | enum e =>
    obtain rfl : (ofEnum e).toJson = json := by simpa [answer] using h
    exact refersTo_ofEnum e

/-- Whatever a builder has been asked for, each reference in its definitions and in its answers is to
a class that it defines, and no definition is left empty: a sealed class has a choice between
references as its definition, any other class an object. A key `$ref` is a reference unless it is
the name of a property, of a value of an enum or of a class. -/
theorem references_resolve (g : TypeGraph) (rs : List Request) :
    (∀ name d, (answerAll g {} rs).definitions.get? name = some d →
      RefersTo (· ∈ (answerAll g {} rs).defined) false d.toJson ∧ d.entries ≠ [] ∧
      ∃ c, g.classes.get? name = some c ∧
        (c.isSealed = true ↔ ∃ names ⊆ (answerAll g {} rs).defined, IsChoice d names) ∧
        (c.isSealed = false ↔ IsObject d)) ∧
    ∀ before r later json, rs = before ++ r :: later →
      ((answerAll g {} before).answer g r).2.1 = .ok (some json) →
      RefersTo (· ∈ (answerAll g {} rs).defined) false json := by
  have hclosed := closed_answerAll (closed_empty g) rs
  refine ⟨fun name d hd => ?_, fun before r later json hrs hjson => ?_⟩
  · obtain ⟨c, hc, rfl⟩ := get?_answerAll hd
    have hname := (mem_defined_iff _ _).2 ⟨_, hd⟩
    refine ⟨refersTo_definition hclosed hname hc, ?_⟩
    cases hs : c.isSealed with
    | true =>
      have hchoice : IsChoice (ofClass g c) (variants g c) := by
        rw [ofClass, if_pos hs]
        exact isChoice_ofVariants g c
      have hvariants : variants g c ⊆ (answerAll g {} rs).defined :=
        references_of_sealed hc hs ▸ hclosed name hname
      refine ⟨by simp [show _ = _ from hchoice], c, hc, ?_, ?_⟩
      · simpa [hs] using ⟨_, hvariants, hchoice⟩
      · simpa [hs] using fun h => not_isChoice_of_isObject h _ hchoice
    | false =>
      have hobject : IsObject (ofClass g c) := by
        rw [ofClass, if_neg (by simp [hs])]
        exact isObject_objectOf g c _
      refine ⟨entries_ne_nil_of_isObject hobject, c, hc, ?_, ?_⟩
      · simpa [hs] using fun names _ => not_isChoice_of_isObject hobject names
      · simpa [hs] using hobject
  · subst hrs
    rw [answerAll_append]
    have hbefore := closed_answerAll (closed_empty g) before
    refine (refersTo_answer hbefore (extends_answerAll g {} before) hjson).mono ?_
    exact fun n hn => (extends_answerAll g _ later).defined_subset hn

theorem references_resolve_cyclicGraph :
    ∃ d, (answerAll cyclicGraph {} [.document "Module"]).definitions.get? "Base" = some d ∧
      RefersTo (· ∈ ["Module", "Base", "Leaf"]) false d.toJson ∧
      ∃ names ⊆ ["Module", "Base", "Leaf"], IsChoice d names := by
  have hdefined : (answerAll cyclicGraph {} [.document "Module"]).defined =
      ["Module", "Base", "Leaf"] := by decide +kernel
  have hbase : "Base" ∈ (answerAll cyclicGraph {} [.document "Module"]).defined := by
    simp [hdefined]
  obtain ⟨d, hd⟩ := (mem_defined_iff _ _).1 hbase
  obtain ⟨hrefers, -, c, hc, hsealed, -⟩ :=
    (references_resolve cyclicGraph [.document "Module"]).1 "Base" d hd
  have hsome : (cyclicGraph.classes.get? "Base").map (·.isSealed) = some true := by decide
  rw [hc, Option.map_some, Option.some.injEq] at hsome
  rw [hdefined] at hrefers hsealed
  exact ⟨d, hd, hrefers, hsealed.1 hsome⟩

/-- An enum with a documented value that is spelled like the key of a reference. -/
def namesakeGraph : TypeGraph := TypeGraph.empty.addEnum
  { name := "Keyword", entries := [{ name := "REF", schemaValue := "$ref", doc := some "A value" }] }

/-- Were names read as words of the schema language, this would be a reference to nowhere. -/
theorem occurs_namesakeGraph :
    ∃ json, (answer namesakeGraph {} (.type "Keyword")).2.1 = .ok (some json) ∧
      Json.Occurs [] refKey false json (.str "A value") ∧
      ∀ name, Json.str "A value" ≠ refTo name := by
  have hanswer : (answer namesakeGraph {} (.type "Keyword")).2.1 = .ok (some (.obj
      [("enum", .arr [.str "$ref"]),
        ("x-intellij-enum-metadata", .obj [("$ref", .str "A value")])])) := rfl
  have hdoc : Json.Occurs [] refKey false (.obj [("$ref", .str "A value")]) (.str "A value") :=
    .here (by simp [refKey])
  have hmember : ("x-intellij-enum-metadata", Json.obj [("$ref", .str "A value")]) ∈
      [("enum", .arr [.str "$ref"]), ("x-intellij-enum-metadata", .obj [("$ref", .str "A value")])] :=
    by simp
  refine ⟨_, hanswer, .member hmember hdoc, ?_⟩
  · intro name h
    have hhead := congrArg (fun s : String => s.toList.head?) (Json.str.inj h)
    simp at hhead

end Builder

end KotlinSchema
