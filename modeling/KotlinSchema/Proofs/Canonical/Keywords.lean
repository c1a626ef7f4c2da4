import KotlinSchema.Proofs.Canonical.Masks
import KotlinSchema.Proofs.Text.Finding

/-! Where keywords stand in written texts. A keyword is read where a word that ends with it is
followed by a blank, so a text can be searched for keywords from blank to blank. -/

namespace KotlinSchema.Canonical
open Text Source

theorem exists_of_keyword? {w : String} {cs next : List Char} (h : keyword? w cs = some next) :
    ∃ b more, isBlank b = true ∧ cs = w.toList ++ b :: more ∧ next = skipBlanks more := by
  obtain ⟨after, hafter, hblank⟩ := Option.bind_eq_some_iff.1 h
  cases after with
  | nil => simp [skipBlanks1?] at hblank
  | cons b more =>
    rw [skipBlanks1?] at hblank
    split at hblank
    · rename_i hb
      exact ⟨b, more, hb, after?_eq_some hafter, (Option.some.inj hblank).symm⟩
    · simp at hblank

theorem optionalKeyword_cases (ws : List String) (cs : List Char) :
    optionalKeyword ws cs = (none, cs) ∨
      ∃ w ∈ ws, ∃ next, keyword? w cs = some next ∧ optionalKeyword ws cs = (some w, next) := by
  simp only [optionalKeyword]
  split
  · rename_i k rest h
    obtain ⟨w, hw, hread⟩ := List.exists_of_findSome?_eq_some h
    obtain ⟨next, hnext, he⟩ := Option.map_eq_some_iff.1 hread
    obtain ⟨rfl, rfl⟩ := Prod.mk.inj he
    exact .inr ⟨w, hw, next, hnext, rfl⟩
  · exact .inl rfl

def AreWords (words : List String) : Prop :=
  ∀ w ∈ words, w.toList ≠ [] ∧ w.toList.all isWord = true

theorem areWords_of_all {words : List String}
    (h : (words.all fun w => !w.toList.isEmpty && w.toList.all isWord) = true) : AreWords words :=
  fun w hw => by simpa using List.all_eq_true.1 h w hw

def endsWithOne (words : List String) (u : String) : Bool :=
  words.any fun w => w.toList.isSuffixOf u.toList

theorem not_suffix_of_endsWithOne {words : List String} {u w : String}
    (h : endsWithOne words u = false) (hw : w ∈ words) : ¬w.toList <:+ u.toList := by
  rw [← List.isSuffixOf_iff_suffix]
  exact List.any_eq_false.1 h w hw

/-- What follows the keywords that are read in a text is dull. -/
def Calm (words : List String) (dull : List Char → Prop) (a rest : List Char) : Prop :=
  ∀ c, c <:+ a → c ≠ [] → ∀ w ∈ words, ∀ next, keyword? w (c ++ rest) = some next → dull next

section Pieces
variable {words : List String} {dull : List Char → Prop} {a b u rest : List Char} {x : Char}

theorem calm_nil : Calm words dull [] rest :=
  fun _ hc hne => absurd (List.suffix_nil.1 hc) hne

theorem calm_append (ha : Calm words dull a (b ++ rest)) (hb : Calm words dull b rest) :
    Calm words dull (a ++ b) rest :=
  forall_suffix_append
    (P := fun place => ∀ w ∈ words, ∀ next, keyword? w place = some next → dull next) ha hb

theorem isWord_of_mem (hwords : AreWords words) {w : String} (hw : w ∈ words) :
    ∀ c ∈ w.toList, isWord c = true := List.all_eq_true.1 (hwords w hw).2

theorem calm_of_not_isWord (hwords : AreWords words) (ha : ∀ c ∈ a, isWord c = false) :
    Calm words dull a rest := by
  intro c hc hne w hw next h
  obtain ⟨b, more, -, hcs, -⟩ := exists_of_keyword? h
  obtain ⟨x, c, rfl⟩ := List.exists_cons_of_ne_nil hne
  obtain ⟨y, v, hv⟩ := List.exists_cons_of_ne_nil (hwords w hw).1
  rw [hv] at hcs
  obtain rfl : x = y := (List.cons.inj hcs).1
  have hword := isWord_of_mem hwords hw x (by simp [hv])
  simp [ha x (hc.subset (by simp))] at hword

theorem calm_closed (hwords : AreWords words) (hu : ∀ c ∈ u, isBlank c = false)
    (hword : isWord x = false) (hblank : isBlank x = false) : Calm words dull (u ++ [x]) rest := by
  refine calm_append ?_ (calm_of_not_isWord hwords (by simpa using hword))
  intro c hc hne w hw next h
  obtain ⟨b, more, hb, hcs, -⟩ := exists_of_keyword? h
  rcases List.append_eq_append_iff.1 hcs with ⟨t, hw', hx⟩ | ⟨t, hc', hx⟩
  · cases t with
    | nil =>
      obtain rfl : x = b := (List.cons.inj hx).1
      simp [hb] at hblank
    | cons y t =>
      obtain rfl : x = y := (List.cons.inj hx).1
      have hmem := isWord_of_mem hwords hw x (by simp [hw'])
      simp [hword] at hmem
  · cases t with
    | nil =>
      obtain rfl : b = x := (List.cons.inj hx).1
      simp [hb] at hblank
    | cons y t =>
      obtain rfl : b = y := (List.cons.inj hx).1
      simp [hu b (hc.subset (by simp [hc']))] at hb

theorem calm_run (hwords : AreWords words) (hu : ∀ c ∈ u, isBlank c = false) {gap next : List Char}
    (hne : gap ≠ []) (hgap : ∀ c ∈ gap, isBlank c = true)
    (hnext : ∀ c ∈ next.head?, isBlank c = false)
    (hdull : ∀ w ∈ words, w.toList <:+ u → dull next) : Calm words dull u (gap ++ next) := by
  obtain ⟨g, gap, rfl⟩ := List.exists_cons_of_ne_nil hne
  obtain ⟨hg, hgap⟩ := List.forall_mem_cons.1 hgap
  intro c hc _ w hw after h
  obtain ⟨b, more, hb, hcs, rfl⟩ := exists_of_keyword? h
  have hend : c = w.toList ∧ gap ++ next = more := by
    rcases List.append_eq_append_iff.1 hcs with ⟨t, hw', hx⟩ | ⟨t, hc', hx⟩
    · cases t with
      | nil => exact ⟨by simpa using hw'.symm, (List.cons.inj hx).2⟩
      | cons y t =>
        obtain rfl : g = y := (List.cons.inj hx).1
        have hmem := isWord_of_mem hwords hw g (by simp [hw'])
        simp [not_isWord_of_isBlank hg] at hmem
    · cases t with
      | nil => exact ⟨by simpa using hc', (List.cons.inj hx).2.symm⟩
      | cons y t =>
        obtain rfl : b = y := (List.cons.inj hx).1
        simp [hu b (hc.subset (by simp [hc']))] at hb
  rw [← hend.2, skipBlanks_append hgap, skipBlanks_eq_self hnext]
  exact hdull w hw (hend.1 ▸ hc)

end Pieces

section Solid

theorem solid_identifier (i : Identifier) : Solid i.chars := solid_of_isWord i.isWord

theorem solid_element (e : Element) : Solid e.chars := by
  cases e with
  | plain name => exact solid_identifier name
  | traceable name =>
    exact solid_append (solid_append (solid_of_all rfl) (solid_identifier name))
      (solid_of_all rfl)

theorem solid_balanced {cs : List Char} (h : Balanced cs) : Solid cs := by
  induction h with
  | nil => exact solid_of_all rfl
  | @cons c cs hc _ ih =>
    refine List.forall_mem_cons.2 ⟨?_, ih⟩
    simp only [isDefaultChar, Bool.or_eq_true, beq_iff_eq] at hc
    rcases hc with ((hc | rfl) | rfl) | rfl
    · exact not_isBlank_of_isWord hc
    · rfl
    · rfl
    · rfl
  | group _ _ ihInner ih =>
    exact solid_append (solid_append (solid_append (solid_of_all rfl) ihInner) (solid_of_all rfl)) ih

theorem solid_mark (t : TypeExpr) : Solid t.mark := by
  rw [TypeExpr.mark]
  split <;> exact solid_of_all rfl

end Solid

section Lines
variable {words : List String} {dull : List Char → Prop} {rest : List Char}

theorem calm_gap (hwords : AreWords words) (g : Gap) : Calm words dull g.chars rest :=
  calm_of_not_isWord hwords fun c hc => not_isWord_of_isBlank (g.isBlank c hc)

theorem calm_char (hwords : AreWords words) {x : Char} (hx : isWord x = false) :
    Calm words dull [x] rest := calm_of_not_isWord hwords (List.forall_mem_singleton.2 hx)

theorem calm_word_space (hwords : AreWords words) {u next : List Char} (hu : Solid u)
    (hnext : ∀ c ∈ next.head?, isBlank c = false)
    (hdull : ∀ w ∈ words, w.toList <:+ u → dull next) : Calm words dull (u ++ [' ']) next :=
  calm_append (calm_run hwords hu (by simp) (List.forall_mem_singleton.2 rfl) hnext hdull)
    (calm_char hwords rfl)

theorem calm_fixed (hwords : AreWords words) {u : String} {next : List Char} (hu : Solid u.toList)
    (hnext : ∀ c ∈ next.head?, isBlank c = false) (hends : endsWithOne words u = false) :
    Calm words dull (u.toList ++ [' ']) next :=
  calm_word_space hwords hu hnext fun _ hw h => absurd h (not_suffix_of_endsWithOne hends hw)

theorem calm_type (hwords : AreWords words) (t : TypeExpr) :
    Calm words dull (t.chars ++ ['>']) rest := by
  rw [TypeExpr.chars, TypeExpr.core]
  cases t.shape with
  | single =>
    exact calm_closed hwords (solid_append (solid_element t.element) (solid_mark t)) rfl rfl
  | list =>
    refine calm_closed hwords (solid_append (solid_append (solid_append ?_ (solid_element _)) ?_)
      (solid_mark t)) rfl rfl
    · exact solid_of_all rfl
    · exact solid_of_all rfl
  | map =>
    have hhead : "Map<String,".toList = "Map<String".toList ++ [','] := rfl
    have hinner : Calm words dull (t.element.chars ++ ['>'] ++ t.mark ++ ['>']) rest :=
      calm_closed hwords (solid_append (solid_append (solid_element _) (solid_of_all rfl))
        (solid_mark t)) rfl rfl
    rw [hhead]
    simp only [List.append_assoc] at hinner ⊢
    rw [← List.append_assoc]
    refine calm_append (calm_closed hwords (solid_of_all rfl) rfl rfl) ?_
    exact calm_append (calm_char hwords rfl) hinner

theorem calm_arguments (hwords : AreWords words)
    (hdefault : endsWithOne words "default" = false) (p : Property) :
    Calm words dull (['('] ++ p.arguments ++ [')']) rest := by
  rw [Property.arguments]
  cases p.default? with
  | none => exact calm_closed hwords (solid_of_all rfl) rfl rfl
  | some d =>
    have htext : ['('] ++ ("default = ".toList ++ d.chars) ++ [')'] =
        ['('] ++ (("default".toList ++ [' ']) ++ ((['='] ++ [' ']) ++ (d.chars ++ [')']))) := by
      simp
    rw [htext]
    refine calm_append (calm_char hwords rfl) (calm_append (calm_fixed hwords ?_ ?_ hdefault) ?_)
    · exact solid_of_all rfl
    · simp [show isBlank '=' = false from rfl]
    · exact calm_append (calm_append (calm_char hwords rfl) (calm_char hwords rfl))
        (calm_closed hwords (solid_balanced d.balanced) rfl rfl)

theorem calm_tail (hwords : AreWords words)
    (hdefault : endsWithOne words "default" = false) (p : Property) :
    Calm words dull p.tail rest := by
  have htext : p.tail = (p.type.chars ++ ['>']) ++ ((['('] ++ p.arguments ++ [')']) ++ p.gap.chars) := by
    simp [Property.tail]
  rw [htext]
  exact calm_append (calm_type hwords p.type)
    (calm_append (calm_arguments hwords hdefault p) (calm_gap hwords p.gap))

end Lines

/-- Keywords, and what is dull after them, that members of declarations do not stir up. -/
structure PassOver (words : List String) (dull : List Char → Prop) : Prop where
  areWords : AreWords words
  endsWithOne : ∀ u ∈ ["val", "by", "default", "outdated"], endsWithOne words u = false
  annotation : ∀ rest, dull ('@' :: rest)
  property : ∀ (name : Identifier) (rest : List Char),
    dull ("val".toList ++ [' '] ++ (name.chars ++ rest))
  delegation : ∀ rest, dull ("by".toList ++ [' '] ++ ('v' :: rest))

section Members
variable {words : List String} {dull : List Char → Prop} {rest : List Char}

theorem calm_line (h : PassOver words dull) (p : Property) : Calm words dull p.line rest := by
  rw [Property.line_words]
  refine calm_append (calm_fixed h.areWords ?_ ?_ (h.endsWithOne "val" (by simp))) <|
    calm_append (calm_word_space h.areWords (solid_identifier _) ?_ ?_) <|
    calm_append (calm_fixed h.areWords ?_ ?_ (h.endsWithOne "by" (by simp))) <|
    calm_append (calm_closed h.areWords ?_ rfl rfl)
      (calm_tail h.areWords (h.endsWithOne "default" (by simp)) p)
  · exact solid_of_all rfl
  · simpa only [List.append_assoc] using
      head?_append_of_solid (solid_identifier p.name) p.name.ne_nil _
  · simp [show isBlank 'b' = false from rfl]
  · intro w hw _
    simpa using h.delegation _
  · exact solid_of_all rfl
  · simp [show isBlank 'v' = false from rfl]
  · exact solid_of_all rfl

theorem calm_doc (hwords : AreWords words) (l : Literal) (g : Gap) :
    Calm words dull (TagLine.print Literal.blanked ⟨.doc l, g⟩) rest := by
  have hblank : ∀ c ∈ l.blanked, isWord c = false := by
    intro c hc
    obtain rfl := List.eq_of_mem_replicate hc
    rfl
  rw [print_doc]
  exact calm_append (calm_char hwords rfl) <|
    calm_append (calm_closed hwords (solid_of_all rfl) rfl rfl) <|
    calm_append (calm_of_not_isWord hwords hblank) <|
    calm_append (calm_char hwords rfl) (calm_gap hwords g)

theorem calm_docTags (hwords : AreWords words) (doc : Option Literal) (g : Gap) :
    Calm words dull (printTags Literal.blanked (docTags doc g)) rest := by
  cases doc with
  | none => exact calm_nil
  | some l => simpa [docTags, printTags] using calm_doc hwords l g

theorem dull_tags (h : PassOver words dull) (ts : List TagLine) (p : Property) :
    dull (printTags Literal.blanked ts ++ p.line ++ rest) ∧
      ∀ c ∈ (printTags Literal.blanked ts ++ p.line ++ rest).head?, isBlank c = false := by
  cases ts with
  | nil =>
    have hline : printTags Literal.blanked [] ++ p.line ++ rest = "val".toList ++ [' '] ++
        (p.name.chars ++ ([' '] ++ (("by".toList ++ [' ']) ++ (("value".toList ++ ['<']) ++
          p.tail)) ++ rest)) := by
      rw [Property.line_words]
      simp [printTags]
    rw [hline]
    exact ⟨h.property p.name _, by simp [show isBlank 'v' = false from rfl]⟩
  | cons t ts =>
    have htags : printTags Literal.blanked (t :: ts) ++ p.line ++ rest = '@' ::
        (t.tag.print Literal.blanked ++ t.gap.chars ++ printTags Literal.blanked ts ++ p.line ++
          rest) := by
      simp [printTags, TagLine.print]
    rw [htags]
    exact ⟨h.annotation _, by simp [show isBlank '@' = false from rfl]⟩

theorem calm_printTags (h : PassOver words dull) (ts : List TagLine) (p : Property) :
    Calm words dull (printTags Literal.blanked ts) (p.line ++ rest) := by
  induction ts with
  | nil => exact calm_nil
  | cons t ts ih =>
    refine calm_append ?_ ih
    rw [← List.append_assoc]
    obtain ⟨hdull, hhead⟩ := dull_tags h ts p
    obtain ⟨tag, gap⟩ := t
    cases tag with
    | doc l => exact calm_doc h.areWords l gap
    | bare name hname =>
      exact calm_append (calm_append (calm_char h.areWords rfl)
        (calm_run h.areWords (solid_identifier name) gap.ne_nil gap.isBlank hhead
          fun _ _ _ => hdull)) (calm_gap h.areWords gap)

theorem calm_property (h : PassOver words dull) (p : Property) :
    Calm words dull (p.print Literal.blanked) rest :=
  calm_append (calm_printTags h p.tags p) (calm_line h p)

theorem calm_entry (h : PassOver words dull) (e : Entry) :
    Calm words dull (e.print Literal.blanked) rest := by
  have hblank : ∀ c ∈ e.value.blanked, isWord c = false := by
    intro c hc
    obtain rfl := List.eq_of_mem_replicate hc
    rfl
  have hseparator : ∀ c ∈ e.separator.chars, isWord c = false := by
    intro c hc
    rcases e.separator.isBlank c hc with hc | rfl
    · exact not_isWord_of_isBlank hc
    · rfl
  have hflag : Calm words dull (e.flag ++ [')']) (e.separator.chars ++ rest) := by
    rw [Entry.flag]
    split
    · have htext : ", outdated = true".toList ++ [')'] = ([','] ++ [' ']) ++
          (("outdated".toList ++ [' ']) ++ ((['='] ++ [' ']) ++ ("true".toList ++ [')']))) := by
        simp
      rw [htext]
      refine calm_append (calm_append (calm_char h.areWords rfl) (calm_char h.areWords rfl)) <|
        calm_append (calm_fixed h.areWords (solid_of_all rfl) ?_
          (h.endsWithOne "outdated" (by simp))) <|
        calm_append (calm_append (calm_char h.areWords rfl) (calm_char h.areWords rfl)) <|
        calm_closed h.areWords (solid_of_all rfl) rfl rfl
      simp [show isBlank '=' = false from rfl]
    · exact calm_char h.areWords rfl
  have htext : e.call Literal.blanked = (e.name.chars ++ ['(']) ++ (e.value.blanked ++
      ((e.flag ++ [')']) ++ e.separator.chars)) := by
    simp [Entry.call]
  refine calm_append (calm_docTags h.areWords e.doc e.docGap) ?_
  rw [htext]
  exact calm_append (calm_closed h.areWords (solid_identifier e.name) rfl rfl) <|
    calm_append (calm_of_not_isWord h.areWords hblank) <|
    calm_append hflag (calm_of_not_isWord h.areWords hseparator)

end Members

end KotlinSchema.Canonical
