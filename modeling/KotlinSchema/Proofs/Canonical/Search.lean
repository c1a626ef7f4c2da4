import KotlinSchema.Proofs.Canonical.Headers

/-! Where no header is in written declarations: in their bodies, and in declarations of the other
kind. -/

namespace KotlinSchema.Canonical
open Text Source

section Enums

def enumWords : List String := ["public", "internal", "enum"]

/-- What follows a keyword does not go on as the header of an enum. -/
def DullEnum (next : List Char) : Prop :=
  keyword? "enum" next = none ∧ keyword? "class" next = none

theorem dullEnum_of_head {next : List Char} {y : Char} (hy : next.head? = some y)
    (hne : y ≠ 'e' ∧ y ≠ 'c') : DullEnum next :=
  ⟨keyword?_eq_none (x := 'e') rfl hy (Ne.symm hne.1),
    keyword?_eq_none (x := 'c') rfl hy (Ne.symm hne.2)⟩

theorem enumHeader?_eq_none {cs : List Char}
    (h : ∀ w ∈ enumWords, ∀ next, keyword? w cs = some next → DullEnum next) :
    enumHeader? cs = none := by
  rcases optionalKeyword_cases visibilities cs with hnone | ⟨w, hw, next, hnext, hsome⟩
  · cases henum : keyword? "enum" cs with
    | none =>
      simp only [enumHeader?, hnone, henum, Option.bind_none, Option.bind_eq_bind]
    | some next =>
      have hclass := (h "enum" (by simp [enumWords]) next henum).2
      simp only [enumHeader?, hnone, henum, hclass, Option.bind_none, Option.bind_some,
        Option.bind_eq_bind]
  · have hmem : w ∈ enumWords := by
      rcases List.mem_pair.1 hw with rfl | rfl <;> simp [enumWords]
    have henum := (h w hmem next hnext).1
    simp only [enumHeader?, hsome, henum, Option.bind_none, Option.bind_eq_bind]

theorem passOver_enum : PassOver enumWords DullEnum where
  areWords := areWords_of_all rfl
  endsWithOne := List.forall_mem_cons.2 ⟨rfl, List.forall_mem_cons.2 ⟨rfl,
    List.forall_mem_cons.2 ⟨rfl, List.forall_mem_singleton.2 rfl⟩⟩⟩
  annotation rest := dullEnum_of_head (y := '@') rfl (by decide)
  property name rest := by
    refine dullEnum_of_head (y := 'v') ?_ (by decide)
    rw [List.append_assoc]
    exact head?_append_of_head? rfl _
  delegation rest := by
    refine dullEnum_of_head (y := 'b') ?_ (by decide)
    rw [List.append_assoc]
    exact head?_append_of_head? rfl _

end Enums

section Classes

def classWords : List String := ["public", "internal", "sealed", "abstract", "class"]

/-- A class whose name stands here would have no supertype. -/
def Headless (next : List Char) : Prop :=
  ∀ name rest, takeWord1? next = some (name, rest) →
    after? [':'] (skipBlanks ((emptyCallEnd? (skipBlanks rest)).getD (skipBlanks rest))) = none

structure DullClass (next : List Char) : Prop where
  modifier : ∀ w ∈ ["sealed", "abstract"], keyword? w next = none
  keyword : keyword? "class" next = none
  headless : Headless next

theorem dullClass_of_head {next : List Char} {y : Char} (hy : next.head? = some y)
    (hne : y ≠ 's' ∧ y ≠ 'a' ∧ y ≠ 'c') (hheadless : Headless next) : DullClass next where
  modifier := by
    intro w hw
    rcases List.mem_pair.1 hw with rfl | rfl
    · exact keyword?_eq_none (x := 's') rfl hy (Ne.symm hne.1)
    · exact keyword?_eq_none (x := 'a') rfl hy (Ne.symm hne.2.1)
  keyword := keyword?_eq_none (x := 'c') rfl hy (Ne.symm hne.2.2)
  headless := hheadless

theorem classHeader?_eq_none {cs : List Char}
    (h : ∀ w ∈ classWords, ∀ next, keyword? w cs = some next → DullClass next) :
    classHeader? cs = none := by
  rcases optionalKeyword_cases visibilities cs with hnone | ⟨w, hw, next, hnext, hsome⟩
  · rcases optionalKeyword_cases ["sealed", "abstract"] cs with hplain | ⟨w, hw, next, hnext, hsome⟩
    · cases hclass : keyword? "class" cs with
      | none =>
        simp only [classHeader?, hnone, hplain, hclass, Option.bind_none, Option.bind_eq_bind]
      | some next =>
        have hheadless := (h "class" (by simp [classWords]) next hclass).headless
        cases hname : takeWord1? next with
        | none =>
          simp only [classHeader?, hnone, hplain, hclass, hname, Option.bind_none,
            Option.bind_some, Option.bind_eq_bind]
        | some found =>
          simp only [classHeader?, hnone, hplain, hclass, hname, hheadless found.1 found.2 hname,
            Option.bind_none, Option.bind_some, Option.bind_eq_bind]
    · have hmem : w ∈ classWords := by
        rcases List.mem_pair.1 hw with rfl | rfl <;> simp [classWords]
      have hclass := (h w hmem next hnext).keyword
      simp only [classHeader?, hnone, hsome, hclass, Option.bind_none, Option.bind_eq_bind]
  · have hmem : w ∈ classWords := by
      rcases List.mem_pair.1 hw with rfl | rfl <;> simp [classWords]
    have hdull := h w hmem next hnext
    simp only [classHeader?, hsome, optionalKeyword_eq_none hdull.modifier, hdull.keyword,
      Option.bind_none, Option.bind_eq_bind]

theorem headless_of_words {v rest : List Char} {x : Char} (hne : v ≠ [])
    (hv : ∀ c ∈ v, isWord c = true) (hx : isWord x = true) :
    Headless (v ++ [' '] ++ (x :: rest)) := by
  intro name after h
  have hword : takeWord1? (v ++ [' '] ++ (x :: rest)) = some (v, ' ' :: x :: rest) := by
    rw [List.append_assoc]
    refine takeWord1?_of_append hne hv ?_
    rintro c ⟨⟩
    rfl
  obtain ⟨rfl, rfl⟩ := Prod.mk.inj (Option.some.inj (hword.symm.trans h))
  have hparen : x ≠ '(' := by
    rintro rfl
    exact absurd hx (by decide)
  have hcolon : x ≠ ':' := by
    rintro rfl
    exact absurd hx (by decide)
  have hcall : emptyCallEnd? (x :: rest) = none := by
    rw [emptyCallEnd?]
    rintro inner h
    exact hparen (List.cons.inj h).1
  have hskip := skipBlanks_cons (not_isBlank_of_isWord hx) rest
  rw [skipBlanks_space, hskip, hcall, Option.getD_none, hskip, after?, if_neg hcolon]

theorem passOver_class : PassOver classWords DullClass where
  areWords := areWords_of_all rfl
  endsWithOne := List.forall_mem_cons.2 ⟨rfl, List.forall_mem_cons.2 ⟨rfl,
    List.forall_mem_cons.2 ⟨rfl, List.forall_mem_singleton.2 rfl⟩⟩⟩
  annotation rest := by
    refine dullClass_of_head (y := '@') rfl (by decide) fun name after h => ?_
    rw [show takeWord1? ('@' :: rest) = none from rfl] at h
    exact absurd h (by simp)
  property name rest := by
    refine dullClass_of_head (y := 'v') ?_ (by decide) ?_
    · rw [List.append_assoc]
      exact head?_append_of_head? rfl _
    · obtain ⟨x, chars, hchars⟩ := List.exists_cons_of_ne_nil name.ne_nil
      rw [hchars]
      exact headless_of_words (by decide) (List.all_eq_true.1 rfl)
        (name.isWord x (by simp [hchars]))
  delegation rest := by
    refine dullClass_of_head (y := 'b') ?_ (by decide) ?_
    · rw [List.append_assoc]
      exact head?_append_of_head? rfl _
    · exact headless_of_words (by decide) (List.all_eq_true.1 rfl) rfl

end Classes

section Headings
variable {words : List String} {dull : List Char → Prop} {rest : List Char}

theorem calm_class (c : Class) : Calm enumWords DullEnum c.heading rest := by
  have hwords := passOver_enum.areWords
  have hmodifier : ∀ next, (∀ c ∈ next.head?, isBlank c = false) →
      Calm enumWords DullEnum (if c.isSealed then "sealed".toList ++ [' '] else []) next := by
    intro next hnext
    cases c.isSealed with
    | true => exact calm_fixed hwords (solid_of_all rfl) hnext rfl
    | false => exact fun c hc hne => absurd (List.suffix_nil.1 hc) hne
  rw [Class.heading_words]
  refine calm_append (hmodifier _ ?_) <| calm_append (calm_fixed hwords ?_ ?_ rfl) <|
    calm_append (calm_word_space hwords (solid_identifier _) ?_ fun _ _ _ => ?_) <|
    calm_append (calm_append (calm_char hwords rfl) (calm_char hwords rfl)) <|
    calm_append (calm_closed hwords (solid_identifier _) rfl rfl)
      (calm_append (calm_char hwords rfl) (calm_char hwords rfl))
  · simpa only [List.append_assoc] using head?_append_of_solid (a := "class".toList)
      (solid_of_all rfl) (by decide) _
  · exact solid_of_all rfl
  · simpa only [List.append_assoc] using
      head?_append_of_solid (solid_identifier c.name) c.name.ne_nil _
  · rintro c ⟨⟩
    rfl
  · exact dullEnum_of_head (y := ':') rfl (by decide)

theorem dullClass_of_call (name : Identifier) {x : Char} {more : List Char}
    (hblank : isBlank x = false) (hx : x ≠ ')') :
    DullClass (name.chars ++ '(' :: x :: more) := by
  have hnone : ∀ w ∈ classWords, keyword? w (name.chars ++ '(' :: x :: more) = none := by
    intro w hw
    by_contra hsome
    obtain ⟨next, hnext⟩ := Option.ne_none_iff_exists'.1 hsome
    have hcalm : Calm classWords (fun _ => False) (name.chars ++ ['(']) (x :: more) :=
      calm_closed passOver_class.areWords (solid_identifier name) rfl rfl
    refine hcalm _ (List.suffix_refl _) (by simp) w hw next ?_
    rwa [List.append_assoc]
  refine ⟨fun w hw => hnone w ?_, hnone "class" (by simp [classWords]), fun found after h => ?_⟩
  · rcases List.mem_pair.1 hw with rfl | rfl <;> simp [classWords]
  · have hword : takeWord1? (name.chars ++ '(' :: x :: more) =
        some (name.chars, '(' :: x :: more) := by
      refine takeWord1?_of_append name.ne_nil name.isWord ?_
      rintro c ⟨⟩
      rfl
    obtain ⟨rfl, rfl⟩ := Prod.mk.inj (Option.some.inj (hword.symm.trans h))
    have hskip : skipBlanks ('(' :: x :: more) = '(' :: x :: more := skipBlanks_cons (by rfl) _
    have hcall : emptyCallEnd? ('(' :: x :: more) = none := by
      rw [emptyCallEnd?, skipBlanks_cons hblank, after?, if_neg hx]
    rw [hskip, hcall, Option.getD_none, hskip]
    rfl

theorem calm_enum (e : Enum) : Calm classWords DullClass e.heading ('{' :: rest) := by
  have hwords := passOver_class.areWords
  rw [Enum.heading_words]
  refine calm_append (calm_fixed hwords ?_ ?_ rfl) <|
    calm_append (calm_word_space hwords ?_ ?_ fun _ _ _ => ?_) <|
    calm_append (calm_closed hwords (solid_identifier _) rfl rfl) <|
    calm_append (calm_fixed hwords ?_ ?_ rfl) <|
    calm_append (calm_closed hwords ?_ rfl rfl) <| calm_append (calm_char hwords rfl) <|
    calm_append (calm_closed hwords ?_ rfl rfl) <| calm_append (calm_char hwords rfl) <|
    calm_append (calm_char hwords rfl) <| calm_append (calm_char hwords rfl) <|
    calm_fixed hwords ?_ ?_ rfl
  · exact solid_of_all rfl
  · simpa only [List.append_assoc] using head?_append_of_solid (a := "class".toList)
      (solid_of_all rfl) (by decide) _
  · exact solid_of_all rfl
  · simpa only [List.append_assoc] using
      head?_append_of_solid (solid_identifier e.name) e.name.ne_nil _
  · obtain ⟨cs, hcs⟩ := List.head?_eq_some_iff.1
      (show "val".toList.head? = some 'v' from rfl)
    simp only [hcs, List.append_assoc, List.cons_append, List.nil_append]
    exact dullClass_of_call e.name rfl (by decide)
  · exact solid_of_all rfl
  · simpa only [List.append_assoc] using head?_append_of_solid (a := "schemaValue".toList)
      (solid_of_all rfl) (by decide) _
  · exact solid_of_all rfl
  · exact solid_of_all rfl
  · exact solid_of_all rfl
  · rintro c ⟨⟩
    rfl

theorem calm_flatMap {β : Type} {print : β → List Char}
    (h : ∀ x rest, Calm words dull (print x) rest) (xs : List β) :
    Calm words dull (xs.flatMap print) rest := by
  induction xs with
  | nil => exact calm_nil
  | cons x xs ih =>
    rw [List.flatMap_cons]
    exact calm_append (h x _) ih

theorem calm_body (h : PassOver words dull) (d : Declaration) :
    Calm words dull (d.body Literal.blanked) rest := by
  cases d with
  | ofClass c =>
    exact calm_append (calm_gap h.areWords _) (calm_flatMap (fun p _ => calm_property h p) _)
  | ofEnum e =>
    refine calm_append (calm_append (calm_gap h.areWords _)
      (calm_flatMap (fun e _ => calm_entry h e) _)) (calm_of_not_isWord h.areWords fun c hc => ?_)
    rcases ending_cases e c hc with rfl | hb
    · rfl
    · exact not_isWord_of_isBlank hb

end Headings

section Stops
variable {cs stop a b rest : List Char}

theorem consecutive_starts {piece? : List Char → Option (List Char)} (ha : Advances piece?)
    (hp : ∀ cs rest, piece? cs = some rest → rest <:+ cs) (cs : List Char) :
    ∀ start ∈ (consecutive piece? ha cs).1,
      ∃ next, piece? start = some next ∧ (consecutive piece? ha cs).2 <:+ next := by
  fun_induction consecutive piece? ha cs with
  | case1 cs h => simp
  | case2 cs rest h starts stop hrest ih =>
    rw [hrest] at ih
    intro start hstart
    rcases List.mem_cons.1 hstart with rfl | hstart
    · exact ⟨rest, h, by simpa [hrest] using (consecutive_suffix ha hp rest).1⟩
    · exact ih start hstart

theorem suffix_of_mem_nameStops {next : List Char} (hnext : annotationAndBlanksEnd? cs = some next)
    (h : stop ∈ nameStops cs) : next <:+ stop := by
  unfold nameStops at h
  split at h
  · rename_i cs
    obtain ⟨k, hk, rfl⟩ := List.mem_map.1 h
    rw [List.mem_reverse, List.mem_range] at hk
    obtain ⟨after, hafter, rfl⟩ := Option.map_eq_some_iff.1 hnext
    obtain ⟨⟨w, more⟩, hword, rfl⟩ := Option.map_eq_some_iff.1 hafter
    have htake := (takeWord1?_eq_some_iff.1 hword).2
    have hmore : more <:+ cs.drop (k + 1) := by
      simp only [htake] at hk
      rw [(eq_append_of_takeWord htake).2, List.drop_append_of_le_length (by omega)]
      exact List.suffix_append _ more
    exact (skipBlanks_suffix _).trans ((getD_suffix fun _ => argumentListEnd?_suffix).trans hmore)
  · simp at h

theorem annotationRun_suffix_stop (h : stop ∈ annotationStops cs) :
    (annotationRun cs).2 <:+ stop := by
  rcases List.mem_cons.1 h with rfl | h
  · exact List.suffix_refl _
  · obtain ⟨start, hstart, hstop⟩ := List.mem_flatMap.1 h
    obtain ⟨next, hnext, hsuffix⟩ := consecutive_starts annotationAndBlanksEnd?_advances
      (fun _ _ => annotationAndBlanksEnd?_suffix) cs start (List.mem_reverse.1 hstart)
    exact hsuffix.trans (suffix_of_mem_nameStops hnext hstop)

/-- Annotations that begin in a text do not reach beyond what follows it. -/
def Halts (a rest : List Char) : Prop :=
  ∀ c, c <:+ a → c ≠ [] → rest <:+ (annotationRun (c ++ rest)).2

theorem halts_nil : Halts [] rest := fun _ hc hne => absurd (List.suffix_nil.1 hc) hne

theorem halts_append (ha : Halts a (b ++ rest)) (hb : Halts b rest) : Halts (a ++ b) rest :=
  forall_suffix_append (P := fun place => rest <:+ (annotationRun place).2)
    (fun c hc hne => (List.suffix_append b rest).trans (ha c hc hne)) hb

theorem halts_of_not_mem (h : '@' ∉ a) (rest : List Char) : Halts a rest := by
  intro c hc hne
  rw [annotationRun_of_not_mem h hc hne]
  exact List.suffix_append c rest

theorem halts_flatMap {β : Type} {print : β → List Char} (h : ∀ x rest, Halts (print x) rest)
    (xs : List β) : Halts (xs.flatMap print) rest := by
  induction xs with
  | nil => exact halts_nil
  | cons x xs ih =>
    rw [List.flatMap_cons]
    exact halts_append (h x _) ih

theorem halts_printTags (hrest : Stops rest) (ts : List TagLine) :
    Halts (printTags Literal.blanked ts) rest := by
  induction ts with
  | nil => exact halts_nil
  | cons t ts ih =>
    intro c hc hne
    have hprint : printTags Literal.blanked (t :: ts) =
        '@' :: (t.tag.print Literal.blanked ++ t.gap.chars) ++ printTags Literal.blanked ts := rfl
    rw [hprint] at hc
    rcases suffix_append_cases hc with hc | ⟨a, hne', ha, rfl⟩
    · exact ih c hc hne
    rcases List.suffix_cons_iff.1 ha with rfl | ha
    · rw [← hprint, annotationRun_printTags passable_blanked hrest]
    · have hinert : '@' ∉ t.tag.print Literal.blanked ++ t.gap.chars :=
        not_mem_of_inert (inert_append (inert_tag t.tag) (inert_gap t.gap))
      rw [List.append_assoc]
      exact (List.suffix_append _ rest).trans (halts_of_not_mem hinert _ a ha hne')

theorem halts_property (p : Property) (rest : List Char) :
    Halts (p.print Literal.blanked) rest := by
  refine halts_append (halts_printTags ?_ p.tags) (halts_of_not_mem (not_mem_of_inert (inert_line p)) _)
  rw [Property.line_words, List.append_assoc, List.append_assoc]
  exact stops_of_isWord (by decide) (List.all_eq_true.1 rfl) _

theorem halts_entry (e : Entry) (rest : List Char) : Halts (e.print Literal.blanked) rest := by
  refine halts_append (halts_printTags ?_ _) (halts_of_not_mem (not_mem_of_inert (inert_call e)) _)
  simp only [Entry.call, List.append_assoc]
  exact stops_of_isWord e.name.ne_nil e.name.isWord _

theorem halts_body (d : Declaration) (rest : List Char) :
    Halts (d.body Literal.blanked) rest := by
  cases d with
  | ofClass c =>
    exact halts_append (halts_of_not_mem (not_mem_of_inert (inert_gap _)) _)
      (halts_flatMap halts_property _)
  | ofEnum e =>
    refine halts_append (halts_append (halts_of_not_mem (not_mem_of_inert (inert_gap _)) _)
      (halts_flatMap halts_entry _)) (halts_of_not_mem (fun hat => ?_) _)
    exact absurd (ending_cases e _ hat) (by decide)

theorem quiet_annotatedHeader? {header? : List Char → Option Header} (hhalts : Halts a rest)
    (hnone : ∀ c, c <:+ a → header? (c ++ rest) = none) :
    Quiet (fun _ => annotatedHeader? header?) a rest := by
  intro c hc hne before
  refine List.findSome?_eq_none_iff.2 fun stop hstop => ?_
  obtain ⟨c', rfl⟩ := (hhalts c hc hne).trans (annotationRun_suffix_stop hstop)
  obtain ⟨t, ht⟩ := annotationStops_suffix hstop
  rw [← List.append_assoc, List.append_left_inj] at ht
  have hsuffix : c' <:+ c := ⟨t, ht⟩
  rw [hnone c' (hsuffix.trans hc)]
  rfl

end Stops

/-- A recogniser of headers that finds none where what follows its keywords is dull. -/
structure Seeks (words : List String) (dull : List Char → Prop)
    (header? : List Char → Option Header) : Prop where
  passOver : PassOver words dull
  eq_none : ∀ cs, (∀ w ∈ words, ∀ next, keyword? w cs = some next → dull next) →
    header? cs = none

section Seeks
variable {words : List String} {dull : List Char → Prop} {header? : List Char → Option Header}
  {a rest : List Char}

theorem Seeks.eq_none_of_calm (h : Seeks words dull header?) (hcalm : Calm words dull a rest)
    (hrest : header? rest = none) : ∀ c, c <:+ a → header? (c ++ rest) = none := by
  intro c hc
  cases c with
  | nil => exact hrest
  | cons x c => exact h.eq_none _ (hcalm (x :: c) hc (List.cons_ne_nil x c))

theorem Seeks.quiet_of_not_mem (h : Seeks words dull header?) (hcalm : Calm words dull a rest)
    (hat : '@' ∉ a) : Quiet (fun _ => annotatedHeader? header?) a rest := by
  intro c hc hne before
  have hnone := h.eq_none _ (hcalm c hc hne)
  simp [annotatedHeader?, annotationStops, annotationRun_of_not_mem hat hc hne, hnone]

theorem Seeks.quiet_tail (h : Seeks words dull header?) (d : Declaration) (rest : List Char) :
    Quiet (fun _ => annotatedHeader? header?) (d.tail Literal.blanked) rest := by
  have hwords := h.passOver.areWords
  have hbrace : header? ('}' :: (d.closeGap.chars ++ rest)) = none :=
    h.eq_none _ (calm_char hwords (x := '}') rfl ['}'] (List.suffix_refl _) (by simp))
  rw [Declaration.tail, List.append_assoc]
  refine quiet_append ?_ (quiet_append (h.quiet_of_not_mem (calm_char hwords rfl) (by decide))
    (h.quiet_of_not_mem (calm_gap hwords _) (not_mem_of_inert (inert_gap _))))
  exact quiet_annotatedHeader? (halts_body d _) (h.eq_none_of_calm (calm_body h.passOver d) hbrace)

theorem stops_heading (d : Declaration) (rest : List Char) : Stops (d.heading ++ rest) := by
  cases d with
  | ofClass c =>
    rw [Declaration.heading, class_heading_eq]
    cases c.isSealed with
    | true =>
      have hsealed : "sealed ".toList ++ classKeywordAt c rest =
          "sealed".toList ++ ' ' :: classKeywordAt c rest := append_space rfl
      rw [if_pos rfl, hsealed]
      exact stops_of_isWord (by decide) (List.all_eq_true.1 rfl) _
    | false =>
      rw [if_neg (by simp), List.nil_append]
      exact stops_of_isWord (by decide) (List.all_eq_true.1 rfl) _
  | ofEnum e =>
    rw [Declaration.heading, enum_heading_eq]
    exact stops_of_isWord (by decide) (List.all_eq_true.1 rfl) _

theorem heading_ne_nil (d : Declaration) : d.heading ≠ [] := by
  cases d with
  | ofClass c => exact List.append_ne_nil_of_right_ne_nil _ (by decide)
  | ofEnum e => exact List.append_ne_nil_of_right_ne_nil _ (by decide)

theorem calm_tags (hwords : AreWords words) (d : Declaration) :
    Calm words dull (printTags Literal.blanked d.tags) rest := by
  cases d <;> exact calm_docTags hwords _ _

/-- Nothing is found in a declaration in whose header no keyword goes on. -/
theorem Seeks.quiet_print (h : Seeks words dull header?) (d : Declaration)
    (hcalm : ∀ rest, Calm words dull d.heading ('{' :: rest)) (rest : List Char) :
    Quiet (fun _ => annotatedHeader? header?) (d.print Literal.blanked) rest := by
  have hwords := h.passOver.areWords
  have hheading : ∀ rest, header? (d.heading ++ '{' :: rest) = none := fun rest =>
    h.eq_none _ (hcalm rest d.heading (List.suffix_refl _) (heading_ne_nil d))
  rw [Declaration.print, List.append_assoc, List.append_assoc]
  refine quiet_append ?_ <| quiet_append ?_ <|
    quiet_append (h.quiet_of_not_mem (calm_char hwords rfl) (by decide)) (h.quiet_tail d rest)
  · rw [List.append_assoc]
    exact quiet_annotatedHeader? (halts_printTags (stops_heading d _) _)
      (h.eq_none_of_calm (calm_tags hwords d) (hheading _))
  · exact h.quiet_of_not_mem (hcalm _) (not_mem_of_inert (inert_heading d))

end Seeks

theorem seeks_enum : Seeks enumWords DullEnum enumHeader? :=
  ⟨passOver_enum, fun _ => enumHeader?_eq_none⟩

theorem seeks_class : Seeks classWords DullClass classHeader? :=
  ⟨passOver_class, fun _ => classHeader?_eq_none⟩

end KotlinSchema.Canonical
