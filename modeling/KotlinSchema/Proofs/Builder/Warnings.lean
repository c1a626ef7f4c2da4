import KotlinSchema.Proofs.Builder.Preorder
import KotlinSchema.Proofs.FirstOccurrences

/-! Warnings. A builder meets names without a meaning over and over, through properties, through
subclasses and in one request after another. It warns of each once, where it first meets it. -/

namespace KotlinSchema
open Relation

namespace Building
open Schema

/-- Depth-first traversal of what effects ask for, with the classes seen before. It gives the classes
visited, each before those first met below it, and every name that is taken for a string for lack of
a meaning, as often as this happens. -/
inductive Traversal (g : TypeGraph) :
    List String → List Effect → List String → List String → Prop where
  | nil (seen : List String) : Traversal g seen [] [] []
  | fallback {seen order met : List String} {es : List Effect} {typeName : String} :
    Traversal g seen es order met →
      Traversal g seen (.report typeName :: es) order (typeName :: met)
  | notice {seen order met : List String} {es : List Effect} {n : Notice} :
    Traversal g seen es order met → Traversal g seen (.notice n :: es) order met
  | pass {seen order met : List String} {es : List Effect} {name : String} :
    name ∈ seen ∨ g.classes.get? name = none → Traversal g seen es order met →
      Traversal g seen (.define name :: es) order met
  | visit {seen below inner after met : List String} {es : List Effect} {name : String}
      {c : ClassType} :
    g.classes.get? name = some c → name ∉ seen →
      Traversal g (seen ++ [name]) (Effect.ofClass g c) below inner →
      Traversal g (seen ++ name :: below) es after met →
      Traversal g seen (.define name :: es) (name :: below ++ after) (inner ++ met)

variable {g : TypeGraph} {s t u : Building} {es fs : List Effect}
  {seen order after met later : List String} {typeName : String}

namespace Traversal

theorem append (h : Traversal g seen es order met)
    (hlater : Traversal g (seen ++ order) fs after later) :
    Traversal g seen (es ++ fs) (order ++ after) (met ++ later) := by
  induction h with
  | nil seen => simpa using hlater
  | fallback _ ih => exact .fallback (ih hlater)
  | notice _ ih => exact .notice (ih hlater)
  | pass hname _ ih => exact .pass hname (ih hlater)
  | visit hclass hfresh hbelow _ _ ih =>
    have hrest := ih (by simpa [List.append_assoc] using hlater)
    simpa [List.append_assoc] using visit hclass hfresh hbelow hrest

theorem unique (h : Traversal g seen es order met) (hlater : Traversal g seen es after later) :
    after = order ∧ later = met := by
  induction h generalizing after later with
  | nil seen => cases hlater; simp
  | fallback _ ih =>
    cases hlater with
    | fallback hlater =>
      obtain ⟨rfl, rfl⟩ := ih hlater
      simp
  | notice _ ih =>
    cases hlater with
    | notice hlater => exact ih hlater
  | pass hname _ ih =>
    cases hlater with
    | pass _ hlater => exact ih hlater
    | visit hclass hfresh => simp_all
  | visit hclass hfresh _ _ ihbelow ihafter =>
    cases hlater with
    | pass hname => simp_all
    | visit hclass' _ hbelow hafter =>
      obtain rfl := Option.some.inj (hclass.symm.trans hclass')
      obtain ⟨rfl, rfl⟩ := ihbelow hbelow
      obtain ⟨rfl, rfl⟩ := ihafter hafter
      simp

theorem mem_met_iff (h : Traversal g seen es order met) :
    typeName ∈ met ↔ .report typeName ∈ es ∨ ∃ name ∈ order, ∃ c,
      g.classes.get? name = some c ∧ .report typeName ∈ Effect.ofClass g c := by
  induction h with
  | nil seen => simp
  | fallback _ ih => simp [ih, or_assoc]
  | notice _ ih => simp [ih]
  | pass _ _ ih => simp [ih]
  | visit hclass _ _ _ ihbelow ihafter =>
    simp only [List.mem_append, ihbelow, ihafter, List.mem_cons, reduceCtorEq, false_or,
      or_and_right, exists_or, exists_eq_left, hclass, Option.some.injEq, exists_eq_left']
    exact or_left_comm

end Traversal

/-- What a builder at work reports while it meets names without a meaning: each that it has not
reported before, once and where it is first met. -/
structure Reports (s : Building) (met : List String) (t : Building) : Prop where
  nodup : s.builder.reported.Nodup → t.builder.reported.Nodup
  reported : ∀ later,
    (t.builder.reported ++ later).eraseDups = (s.builder.reported ++ met ++ later).eraseDups
  warnings : ∃ fresh, t.builder.reported = s.builder.reported ++ fresh ∧
    t.notices.filter (·.severity = .warning) =
      s.notices.filter (·.severity = .warning) ++ fresh.map .unresolvedType

namespace Reports

theorem of_quiet (hreported : t.builder.reported = s.builder.reported)
    (hnotices : t.notices.filter (·.severity = .warning) =
      s.notices.filter (·.severity = .warning)) : Reports s [] t where
  nodup h := by rwa [hreported]
  reported later := by simp [hreported]
  warnings := ⟨[], by simp [hreported], by simp [hnotices]⟩

theorem trans (h : Reports s met t) (hlater : Reports t later u) :
    Reports s (met ++ later) u where
  nodup hs := hlater.nodup (h.nodup hs)
  reported rest := by
    rw [hlater.reported, List.append_assoc, h.reported, List.append_assoc, List.append_assoc,
      List.append_assoc]
  warnings := by
    obtain ⟨fresh, hreported, hnotices⟩ := h.warnings
    obtain ⟨fresh', hreported', hnotices'⟩ := hlater.warnings
    exact ⟨fresh ++ fresh', by rw [hreported', hreported, List.append_assoc],
      by rw [hnotices', hnotices, List.map_append, List.append_assoc]⟩

theorem of_mem (h : typeName ∈ s.builder.reported) : Reports s [typeName] s where
  nodup := id
  reported later := by
    rw [List.append_assoc, List.singleton_append, eraseDups_append_cons h]
  warnings := ⟨[], by simp, by simp⟩

theorem of_not_mem (h : typeName ∉ s.builder.reported) :
    Reports s [typeName] ⟨{ s.builder with reported := s.builder.reported ++ [typeName] },
      s.notices ++ [.unresolvedType typeName]⟩ where
  nodup hs := List.nodup_append.2 ⟨hs, List.nodup_singleton _, fun name hname _ hlast =>
    List.mem_singleton.1 hlast ▸ ne_of_mem_of_not_mem hname h⟩
  reported later := rfl
  warnings := ⟨[typeName], rfl, by rw [List.filter_append]; rfl⟩

theorem behind {b b' : Builder} {notices : List Notice} (h : Reports ⟨b, []⟩ met ⟨b', notices⟩)
    (before : List Notice) : Reports ⟨b, before⟩ met ⟨b', before ++ notices⟩ where
  nodup := h.nodup
  reported := h.reported
  warnings := by
    obtain ⟨fresh, hreported, hnotices⟩ := h.warnings
    exact ⟨fresh, hreported, by simpa [List.filter_append] using hnotices⟩

theorem warnings_eq {b : Builder} {notices : List Notice} (h : Reports ⟨{}, []⟩ met ⟨b, notices⟩) :
    notices.filter (·.severity = .warning) = met.eraseDups.map .unresolvedType := by
  obtain ⟨fresh, hreported, hnotices⟩ := h.warnings
  have hmet : b.reported.eraseDups = met.eraseDups := by simpa using h.reported []
  have hb : b.reported = fresh := by simpa using hreported
  rw [← hmet, eraseDups_of_nodup (h.nodup List.nodup_nil), hb]
  simpa using hnotices

end Reports

theorem report_mem_ofType_iff {name : String} :
    .report typeName ∈ Effect.ofType g name ↔ typeName = name ∧ meaning g name = .unresolved := by
  rw [Effect.ofType]
  cases meaning g name <;> simp

theorem notice_not_mem_ofType (g : TypeGraph) (n : Notice) (name : String) :
    .notice n ∉ Effect.ofType g name := by
  rw [Effect.ofType]
  cases meaning g name <;> simp

theorem meaning_eq_unresolved_iff :
    meaning g typeName = .unresolved ↔
      g.enums.contains typeName = false ∧ g.classes.contains typeName = false ∧
      (∀ inner, tracedEnum? typeName = some inner → g.enums.contains inner = false) ∧
      primitive? typeName = none := by
  have henum (name : String) : g.enums.contains name = (g.enums.get? name).isSome := rfl
  have hclass : g.classes.contains typeName = (g.classes.get? typeName).isSome := rfl
  unfold meaning
  cases he : g.enums.get? typeName with
  | some e => simp [henum, he]
  | none =>
    cases hc : g.classes.get? typeName with
    | some c => simp [hclass, hc]
    | none =>
      cases htraced : tracedEnum? typeName with
      | none => cases primitive? typeName <;> simp [henum, hclass, he, hc]
      | some inner =>
        cases hinner : g.enums.get? inner with
        | some e => simp [henum, hinner]
        | none => cases primitive? typeName <;> simp [henum, hclass, he, hc, hinner]

theorem severity_of_mem_ofClass {c : ClassType} {n : Notice}
    (h : .notice n ∈ Effect.ofClass g c) : n.severity = .debug := by
  rw [Effect.ofClass] at h
  split at h
  · rcases List.mem_append.1 h with h | h
    · split at h <;> simp_all [Notice.severity]
    · simp at h
  · obtain ⟨p, -, hp⟩ := List.mem_flatMap.1 h
    exact absurd hp (notice_not_mem_ofType g n p.typeName)

theorem report_mem_ofClass_iff {c : ClassType} :
    .report typeName ∈ Effect.ofClass g c ↔ c.isSealed = false ∧
      meaning g typeName = .unresolved ∧ ∃ p ∈ visibleProperties g c, p.typeName = typeName := by
  rw [Effect.ofClass]
  split
  · rename_i hsealed
    split <;> simp [hsealed]
  · rename_i hopen
    simp only [List.mem_flatMap, report_mem_ofType_iff, hopen]
    grind

/-- A derivation visits classes as the traversal does and reports the names that this meets. -/
theorem Derives.traversal (h : Derives g s es t)
    (hes : ∀ n, .notice n ∈ es → n.severity = .debug) :
    ∃ order met, t.builder.defined = s.builder.defined ++ order ∧
      Traversal g s.builder.defined es order met ∧ Reports s met t := by
  induction h with
  | nil s => exact ⟨[], [], by simp, .nil _, .of_quiet rfl rfl⟩
  | @cons s t u e es _ _ ihe ihes =>
    obtain ⟨order, met, ht, horder, hmet⟩ := ihe fun n hn => hes n (by simp_all)
    obtain ⟨after, later, hu, hafter, hlater⟩ := ihes fun n hn => hes n (by simp_all)
    refine ⟨order ++ after, met ++ later, by rw [hu, ht, List.append_assoc], ?_, hmet.trans hlater⟩
    exact horder.append (ht ▸ hafter)
  | reported hmem => exact ⟨[], _, by simp, .fallback (.nil _), .of_mem hmem⟩
  | report hfresh =>
    exact ⟨[], _, by simp [Builder.defined], .fallback (.nil _), .of_not_mem hfresh⟩
  | notice s n =>
    have hquiet := hes n List.mem_cons_self
    refine ⟨[], [], by simp, .notice (.nil _), .of_quiet rfl ?_⟩
    simp [List.filter_append, hquiet]
  | missing hmissing => exact ⟨[], [], by simp, .pass (.inr hmissing) (.nil _), .of_quiet rfl rfl⟩
  | defined hmem => exact ⟨[], [], by simp, .pass (.inl hmem) (.nil _), .of_quiet rfl rfl⟩
  | @define s t name c hclass hfresh _ ih =>
    obtain ⟨below, met, ht, hbelow, hmet⟩ := ih fun n hn => severity_of_mem_ofClass hn
    rw [builder_store, Builder.defined_store_of_not_mem hfresh] at ht hbelow
    have hname : name ∈ t.builder.defined := by simp [ht]
    have hvisit := Traversal.visit hclass hfresh hbelow (.nil _)
    refine ⟨name :: below, met, by simp [Builder.defined_store_of_mem hname, ht], ?_, ?_⟩
    · simpa using hvisit
    · exact ⟨hmet.nodup, hmet.reported, hmet.warnings⟩

end Building

namespace Builder
open Building Schema

variable {g : TypeGraph}

def noticesAll (g : TypeGraph) : Builder → List Request → List Notice
  | _, [] => []
  | b, r :: rs => (b.answer g r).2.2 ++ noticesAll g (b.answer g r).1 rs

theorem notice_not_mem_ofRequest (g : TypeGraph) (n : Notice) (r : Request) :
    .notice n ∉ Effect.ofRequest g r := by
  cases r with
  | document root =>
    rw [Effect.ofRequest]
    split <;> simp
  | property p => exact notice_not_mem_ofType g n p.typeName
  | type typeName => exact notice_not_mem_ofType g n typeName
  | _ => simp [Effect.ofRequest]

theorem meaning_of_report_mem_ofRequest {r : Request} {typeName : String}
    (h : .report typeName ∈ Effect.ofRequest g r) : meaning g typeName = .unresolved := by
  cases r with
  | document root =>
    rw [Effect.ofRequest] at h
    split at h <;> simp at h
  | definition className => simp [Effect.ofRequest] at h
  | property p =>
    obtain ⟨rfl, hmeaning⟩ := report_mem_ofType_iff.1 h
    exact hmeaning
  | type name =>
    obtain ⟨rfl, hmeaning⟩ := report_mem_ofType_iff.1 h
    exact hmeaning
  | enum e => simp [Effect.ofRequest] at h

theorem traversal_answer (g : TypeGraph) (b : Builder) (r : Request) :
    ∃ order met, (b.answer g r).1.defined = b.defined ++ order ∧
      Traversal g b.defined (Effect.ofRequest g r) order met ∧
      Reports ⟨b, []⟩ met ⟨(b.answer g r).1, (b.answer g r).2.2⟩ := by
  have h := (derives_applyAll g ⟨b, []⟩ (Effect.ofRequest g r)).traversal fun n hn =>
    absurd hn (notice_not_mem_ofRequest g n r)
  rwa [applyAll_ofRequest] at h

theorem traversal_answerAll (g : TypeGraph) (b : Builder) (requests : List Request) :
    ∃ order met, (b.answerAll g requests).defined = b.defined ++ order ∧
      Traversal g b.defined (requests.flatMap (Effect.ofRequest g)) order met ∧
      Reports ⟨b, []⟩ met ⟨b.answerAll g requests, noticesAll g b requests⟩ := by
  induction requests generalizing b with
  | nil => exact ⟨[], [], by simp [answerAll], .nil _, .of_quiet rfl rfl⟩
  | cons r rs ih =>
    obtain ⟨order, met, hdefined, horder, hmet⟩ := traversal_answer g b r
    obtain ⟨after, later, hall, hafter, hlater⟩ := ih (b.answer g r).1
    refine ⟨order ++ after, met ++ later, ?_, ?_, hmet.trans (hlater.behind _)⟩
    · rw [hdefined, List.append_assoc] at hall
      exact hall
    · exact horder.append (hdefined ▸ hafter)

theorem text_unresolvedType_injective :
    Function.Injective fun name => (Notice.unresolvedType name).text := by
  intro name name' h
  exact (String.append_right_inj _).1 ((String.append_left_inj _).1 h)

/-- The warnings of a new builder, whatever it is asked for and however often: one for each name that
was taken for a string for lack of a meaning, in the order in which the traversal first meets them.
Where one class is built these are the types of the visible properties of the classes without
variants that it reaches, so far as they name no enum, no class, no traced enum and no primitive. -/
theorem warnings_of_traversal (g : TypeGraph) :
    (∀ requests, ∃ order met,
      (∀ order' met', Traversal g [] (requests.flatMap (Effect.ofRequest g)) order' met' ↔
        order' = order ∧ met' = met) ∧
      (∀ typeName ∈ met, meaning g typeName = .unresolved) ∧
      (noticesAll g {} requests).filter (·.severity = .warning) =
        met.eraseDups.map .unresolvedType ∧
      (((noticesAll g {} requests).filter (·.severity = .warning)).map (·.text)).Nodup) ∧
    ∀ root, g.classes.contains root = true → ∃ after notices met,
      build g {} root = .ok (after, notices) ∧
      (∀ order' met', Traversal g [] [.define root] order' met' ↔
        order' = after.defined ∧ met' = met) ∧
      notices.filter (·.severity = .warning) = met.eraseDups.map .unresolvedType ∧
      ∀ typeName, typeName ∈ met ↔ ∃ name c, ReflTransGen (fun a b => b ∈ g.references a) root name ∧
        g.classes.get? name = some c ∧ c.isSealed = false ∧
        (∃ p ∈ g.effectiveProperties c, p.isHidden = false ∧ p.typeName = typeName) ∧
        g.enums.contains typeName = false ∧ g.classes.contains typeName = false ∧
        (∀ inner, tracedEnum? typeName = some inner → g.enums.contains inner = false) ∧
        primitive? typeName = none := by
  refine ⟨fun requests => ?_, fun root hroot => ?_⟩
  · obtain ⟨order, met, -, horder, hmet⟩ := traversal_answerAll g {} requests
    refine ⟨order, met, fun order' met' => ⟨horder.unique, ?_⟩, fun typeName hmem => ?_,
      hmet.warnings_eq, ?_⟩
    · rintro ⟨rfl, rfl⟩
      exact horder
    · rcases horder.mem_met_iff.1 hmem with hasked | ⟨_, _, _, _, hreferred⟩
      · obtain ⟨r, -, hr⟩ := List.mem_flatMap.1 hasked
        exact meaning_of_report_mem_ofRequest hr
      · exact (report_mem_ofClass_iff.1 hreferred).2.1
    · rw [hmet.warnings_eq, List.map_map]
      exact (nodup_eraseDups met).map text_unresolvedType_injective
  · let made := applyAll g ⟨{}, []⟩ [.define root]
    have hmade : Derives g ⟨{}, []⟩ [.define root] made := derives_applyAll g _ _
    obtain ⟨order, met, hdefined, horder, hmet⟩ := hmade.traversal (by simp)
    obtain ⟨order', hdefined', hpreorder⟩ := hmade.preorder
    obtain rfl : order' = order := List.append_cancel_left (hdefined'.symm.trans hdefined)
    have hreached (name : String) :
        name ∈ order' ↔ ReflTransGen (fun a b => b ∈ g.references a) root name := by
      rw [Preorder.mem_iff hpreorder]
      simp [Effect.target?, hroot]
    refine ⟨made.builder, made.notices, met, ?_, fun order'' met' => ?_, hmet.warnings_eq, ?_⟩
    · rw [build, if_pos hroot]
      rfl
    · rw [hdefined]
      refine ⟨horder.unique, ?_⟩
      rintro ⟨rfl, rfl⟩
      exact horder
    · intro typeName
      rw [horder.mem_met_iff]
      simp only [report_mem_ofClass_iff, meaning_eq_unresolved_iff, hreached, visibleProperties,
        List.mem_filter, List.mem_singleton, reduceCtorEq, false_or, Bool.not_eq_true']
      grind

def riddleModule : ClassType where
  name := "Module"
  properties := [{ name := "first", typeName := "Mystery" },
    { name := "parts", typeName := "Part", isList := true },
    { name := "last", typeName := "Riddle" }]

def riddlePart : ClassType where
  name := "Part"
  properties := [{ name := "kind", typeName := "Enigma" },
    { name := "secret", typeName := "Secret", annotations := ["HiddenFromCompletion"] }]
  parent := some "Base"

def riddleGraph : TypeGraph := TypeGraph.empty.addAll
  [.ofClass riddleModule, .ofClass riddlePart,
    .ofClass { name := "Base", properties := [{ name := "origin", typeName := "Riddle" }] }]

theorem warnings_of_traversal_riddleGraph :
    riddleGraph.classes.contains "Module" = true ∧ ∃ after notices,
      build riddleGraph {} "Module" = .ok (after, notices) ∧
      after.defined = ["Module", "Part"] ∧
      notices.filter (·.severity = .warning) =
        [.unresolvedType "Mystery", .unresolvedType "Enigma", .unresolvedType "Riddle"] := by
  have hroot : riddleGraph.classes.contains "Module" = true := by decide
  have hmodule : riddleGraph.classes.get? "Module" = some riddleModule := by decide
  have hpart : riddleGraph.classes.get? "Part" = some riddlePart := by decide
  have hmoduleEffects : Effect.ofClass riddleGraph riddleModule =
      [.report "Mystery", .define "Part", .report "Riddle"] := by decide +kernel
  have hpartEffects : Effect.ofClass riddleGraph riddlePart =
      [.report "Enigma", .report "Riddle"] := by decide +kernel
  have hbelow : Traversal riddleGraph ["Module", "Part"] (Effect.ofClass riddleGraph riddlePart) []
      ["Enigma", "Riddle"] := by
    rw [hpartEffects]
    exact .fallback (.fallback (.nil _))
  have hinner : Traversal riddleGraph ["Module"] (Effect.ofClass riddleGraph riddleModule) ["Part"]
      ["Mystery", "Enigma", "Riddle", "Riddle"] := by
    rw [hmoduleEffects]
    exact .fallback (.visit hpart (by decide : "Part" ∉ ["Module"]) hbelow (.fallback (.nil _)))
  have hall : Traversal riddleGraph [] [.define "Module"] ["Module", "Part"]
      ["Mystery", "Enigma", "Riddle", "Riddle"] :=
    .visit hmodule List.not_mem_nil hinner (.nil _)
  obtain ⟨after, notices, met, hbuild, hunique, hwarnings, -⟩ :=
    (warnings_of_traversal riddleGraph).2 "Module" hroot
  obtain ⟨hdefined, rfl⟩ := (hunique _ _).1 hall
  exact ⟨hroot, after, notices, hbuild, hdefined.symm, hwarnings⟩

end Builder

end KotlinSchema
