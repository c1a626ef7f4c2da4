import KotlinSchema.Proofs.Canonical.Grammar
import KotlinSchema.Proofs.Source.Tokens

/-! How written texts are masked. A text is put together from pieces that the reader of regions
leaves as it has entered them, in code; what is in literals is blank without them. -/

namespace KotlinSchema.Canonical
open Text Source

def isPlain (c : Char) : Bool := c != '/' && c != '"' && c != '\''

def isInert (c : Char) : Bool := isPlain c && c != '{' && c != '}' && c != ';' && c != '@'

def isMemberChar (c : Char) : Bool := isInert c || c == '@'

theorem isPlain_iff {c : Char} : isPlain c = true ↔ c ≠ '/' ∧ c ≠ '"' ∧ c ≠ '\'' := by
  simp [isPlain, and_assoc]

theorem isInert_iff {c : Char} :
    isInert c = true ↔ isPlain c = true ∧ c ≠ '{' ∧ c ≠ '}' ∧ c ≠ ';' ∧ c ≠ '@' := by
  simp [isInert, and_assoc]

/-- A text is read from code to code, whatever follows, and a mask without literals shows `code`. -/
def Masks (a code : List Char) : Prop :=
  a.head? ≠ some '"' ∧ ∀ rest, rest.head? ≠ some '"' →
    ∃ ms, mark .code (a ++ rest) = ms ++ mark .code rest ∧
      ms.map (shown true) = a ∧ ms.map (shown false) = code

section Pieces
variable {a a' b b' : List Char} {β : Type}

theorem masks_append (ha : Masks a a') (hb : Masks b b') : Masks (a ++ b) (a' ++ b') := by
  obtain ⟨hheadA, ha⟩ := ha
  obtain ⟨hheadB, hb⟩ := hb
  have hhead : ∀ {x y : List Char}, x.head? ≠ some '"' → y.head? ≠ some '"' →
      (x ++ y).head? ≠ some '"' := by
    intro x y hx hy
    cases x with
    | nil => exact hy
    | cons c x => exact hx
  refine ⟨hhead hheadA hheadB, fun rest hrest => ?_⟩
  obtain ⟨ms, hms, htrue, hfalse⟩ := ha (b ++ rest) (hhead hheadB hrest)
  obtain ⟨ns, hns, htrue', hfalse'⟩ := hb rest hrest
  refine ⟨ms ++ ns, ?_, by simp [htrue, htrue'], by simp [hfalse, hfalse']⟩
  rw [List.append_assoc, hms, hns, List.append_assoc]

theorem mark_of_isPlain (h : ∀ c ∈ a, isPlain c = true) (rest : List Char) :
    mark .code (a ++ rest) = a.map (·, .code) ++ mark .code rest := by
  induction a with
  | nil => rfl
  | cons c a ih =>
    obtain ⟨hslash, hquote, hchar⟩ := isPlain_iff.1 (h c List.mem_cons_self)
    have hstep : step .code c (a ++ rest) = (.code, .code) := by
      simp [step_code_eq, hslash, hquote, hchar]
    rw [List.cons_append, mark_cons, hstep, ih fun d hd => h d (List.mem_cons_of_mem c hd)]
    rfl

theorem map_shown_code (keep : Bool) (a : List Char) :
    (a.map (·, Region.code)).map (shown keep) = a := by
  rw [List.map_map]
  exact List.map_id'' (fun c => shown_of_kept rfl) a

theorem masks_of_isPlain (h : ∀ c ∈ a, isPlain c = true) : Masks a a := by
  refine ⟨?_, fun rest _ => ⟨a.map (·, .code), mark_of_isPlain h rest, map_shown_code true a,
    map_shown_code false a⟩⟩
  cases a with
  | nil => simp
  | cons c a => simpa using (isPlain_iff.1 (h c List.mem_cons_self)).2.1

theorem masks_flatMap {print code : β → List Char} (h : ∀ x, Masks (print x) (code x))
    (xs : List β) : Masks (xs.flatMap print) (xs.flatMap code) := by
  induction xs with
  | nil => exact masks_of_isPlain (by simp)
  | cons x xs ih => exact masks_append (h x) ih

end Pieces

section Literals
variable {content value rest : List Char}

theorem quotable_of_spells (h : Spells content value) : Quotable '"' content := by
  induction h with
  | nil => exact .nil
  | plain hquote hslash _ _ ih => exact .plain hquote hslash ih
  | escaped _ _ ih => exact .pair ih

theorem newline_not_mem_of_spells (h : Spells content value) : '\n' ∉ content := by
  induction h with
  | nil => simp
  | plain _ _ hline _ ih => simpa [eq_comm, hline] using ih
  | escaped hline _ ih => simpa [eq_comm, hline] using ih

/-- A text on one line that is read as one literal. -/
structure IsLiteral (text : List Char) : Prop where
  oneLine : '\n' ∉ text
  mark_eq : ∀ rest, rest.head? ≠ some '"' →
    mark .code (text ++ rest) = text.map (·, .literal) ++ mark .code rest

theorem Literal.isLiteral (l : Literal) : IsLiteral l.text where
  oneLine := by simp [Literal.text, newline_not_mem_of_spells l.spells]
  mark_eq _ hrest := mark_quoted (quotable_of_spells l.spells) hrest

theorem map_shown_literal {text : List Char} (h : IsLiteral text) :
    (text.map (·, Region.literal)).map (shown true) = text ∧
      (text.map (·, Region.literal)).map (shown false) = List.replicate text.length ' ' := by
  rw [List.map_map, List.map_map]
  refine ⟨List.map_id'' (fun c => shown_of_kept rfl) _, ?_⟩
  have hblank : ∀ c ∈ text, (shown false ∘ (·, Region.literal)) c = ' ' := by
    intro c hc
    have hne : c ≠ '\n' := fun he => h.oneLine (he ▸ hc)
    simp [shown, Region.isKept, hne]
  rw [List.map_congr_left hblank, List.map_const']

theorem masks_isLiteral {a b text : List Char} (h : IsLiteral text)
    (ha : ∀ c ∈ a, isPlain c = true) (hne : a ≠ []) (hb : ∀ c ∈ b, isPlain c = true)
    (hne' : b ≠ []) :
    Masks (a ++ text ++ b) (a ++ List.replicate text.length ' ' ++ b) := by
  obtain ⟨c, a, rfl⟩ := List.exists_cons_of_ne_nil hne
  obtain ⟨d, b, rfl⟩ := List.exists_cons_of_ne_nil hne'
  have hfollow : ∀ rest, (d :: b ++ rest).head? ≠ some '"' := by
    intro rest
    simpa using (isPlain_iff.1 (hb d List.mem_cons_self)).2.1
  refine ⟨by simpa using (isPlain_iff.1 (ha c List.mem_cons_self)).2.1, fun rest _ =>
    ⟨(c :: a).map (·, .code) ++ (text.map (·, .literal) ++ (d :: b).map (·, .code)), ?_, ?_, ?_⟩⟩
  · rw [List.append_assoc, List.append_assoc, mark_of_isPlain ha, h.mark_eq _ (hfollow rest),
      mark_of_isPlain hb]
    simp
  · rw [List.map_append, List.map_append, map_shown_code, map_shown_code, (map_shown_literal h).1,
      List.append_assoc]
  · rw [List.map_append, List.map_append, map_shown_code, map_shown_code, (map_shown_literal h).2,
      List.append_assoc]

theorem masks_literal {a b : List Char} (l : Literal) (ha : ∀ c ∈ a, isPlain c = true)
    (hne : a ≠ []) (hb : ∀ c ∈ b, isPlain c = true) (hne' : b ≠ []) :
    Masks (a ++ l.text ++ b) (a ++ l.blanked ++ b) := by
  have hlength : l.text.length = l.content.length + 2 := by simp [Literal.text]
  have h := masks_isLiteral l.isLiteral ha hne hb hne'
  rwa [hlength] at h

end Literals

section Inert
variable {c : Char}

theorem isInert_iff_not_mem : isInert c = true ↔ c ∉ ['/', '"', '\'', '{', '}', ';', '@'] := by
  simp [isInert, isPlain, and_assoc]

theorem isInert_of_isWord (h : isWord c = true) : isInert c = true :=
  isInert_iff_not_mem.2 (not_mem_of_class h (by decide))

theorem isInert_of_isBlank (h : isBlank c = true) : isInert c = true :=
  isInert_iff_not_mem.2 (not_mem_of_class h (by decide))

theorem Identifier.isWord (i : Identifier) : ∀ c ∈ i.chars, isWord c = true := by
  intro c hc
  rcases i.isAlphanum c hc with h | rfl
  · exact isWord_of_isAlphanum h
  · decide

theorem inert_identifier (i : Identifier) : ∀ c ∈ i.chars, isInert c = true :=
  fun c hc => isInert_of_isWord (i.isWord c hc)

theorem inert_gap (g : Gap) : ∀ c ∈ g.chars, isInert c = true :=
  fun c hc => isInert_of_isBlank (g.isBlank c hc)

theorem inert_separator (s : Separator) : ∀ c ∈ s.chars, isInert c = true := by
  intro c hc
  rcases s.isBlank c hc with h | rfl
  · exact isInert_of_isBlank h
  · decide

theorem inert_of_all {a : List Char} (h : a.all isInert = true) : ∀ c ∈ a, isInert c = true :=
  List.all_eq_true.1 h

theorem inert_append {a b : List Char} (ha : ∀ c ∈ a, isInert c = true) (hb : ∀ c ∈ b, isInert c = true) :
    ∀ c ∈ a ++ b, isInert c = true := List.forall_mem_append.2 ⟨ha, hb⟩

theorem not_mem_of_inert {a : List Char} (h : ∀ c ∈ a, isInert c = true) : '@' ∉ a :=
  fun hat => absurd (h '@' hat) (by decide)

theorem inert_element (e : Element) : ∀ c ∈ e.chars, isInert c = true := by
  cases e with
  | plain name => exact inert_identifier name
  | traceable name =>
    exact inert_append (inert_append (inert_of_all rfl) (inert_identifier name)) (inert_of_all rfl)

theorem inert_type (t : TypeExpr) : ∀ c ∈ t.chars, isInert c = true := by
  refine inert_append ?_ ?_
  · rw [TypeExpr.core]
    cases t.shape with
    | single => exact inert_element t.element
    | list =>
      exact inert_append (inert_append (inert_of_all rfl) (inert_element t.element)) (inert_of_all rfl)
    | map =>
      exact inert_append (inert_append (inert_append (inert_of_all rfl) (inert_of_all rfl))
        (inert_element t.element)) (inert_of_all rfl)
  · rw [TypeExpr.mark]
    split <;> exact inert_of_all rfl

theorem isInert_of_isDefaultChar (h : isDefaultChar c = true) : isInert c = true := by
  simp only [isDefaultChar, Bool.or_eq_true, beq_iff_eq] at h
  rcases h with ((h | rfl) | rfl) | rfl
  · exact isInert_of_isWord h
  · decide
  · decide
  · decide

theorem inert_balanced {cs : List Char} (h : Balanced cs) : ∀ c ∈ cs, isInert c = true := by
  induction h with
  | nil => simp
  | cons hc _ ih => exact List.forall_mem_cons.2 ⟨isInert_of_isDefaultChar hc, ih⟩
  | group _ _ ihInner ih =>
    exact inert_append (inert_append (inert_append (inert_of_all rfl) ihInner) (inert_of_all rfl)) ih

theorem inert_arguments (p : Property) : ∀ c ∈ p.arguments, isInert c = true := by
  rw [Property.arguments]
  cases p.default? with
  | none => simp
  | some d => exact inert_append (inert_of_all rfl) (inert_balanced d.balanced)

theorem inert_tail (p : Property) : ∀ c ∈ p.tail, isInert c = true :=
  inert_append (inert_append (inert_append (inert_append (inert_type p.type)
    (inert_of_all rfl)) (inert_arguments p)) (inert_of_all rfl)) (inert_gap p.gap)

theorem inert_line (p : Property) : ∀ c ∈ p.line, isInert c = true :=
  inert_append (inert_append (inert_append (inert_of_all rfl)
    (inert_identifier p.name)) (inert_of_all rfl)) (inert_tail p)

theorem inert_blanked (l : Literal) : ∀ c ∈ l.blanked, isInert c = true := by
  intro c hc
  obtain rfl := List.eq_of_mem_replicate hc
  decide

theorem inert_tag (t : Tag) : ∀ c ∈ t.print Literal.blanked, isInert c = true := by
  cases t with
  | bare name h => exact inert_identifier name
  | doc l => exact inert_append (inert_append (inert_of_all rfl) (inert_blanked l)) (inert_of_all rfl)

theorem inert_flag (e : Entry) : ∀ c ∈ e.flag, isInert c = true := by
  rw [Entry.flag]
  split <;> exact inert_of_all rfl

theorem inert_call (e : Entry) : ∀ c ∈ e.call Literal.blanked, isInert c = true :=
  inert_append (inert_append (inert_append (inert_append (inert_append
    (inert_identifier e.name) (inert_of_all rfl)) (inert_blanked e.value)) (inert_flag e)) (inert_of_all rfl))
    (inert_separator e.separator)

theorem inert_heading (d : Declaration) : ∀ c ∈ d.heading, isInert c = true := by
  cases d with
  | ofClass c =>
    have hmodifier : ∀ x ∈ if c.isSealed then "sealed ".toList else [], isInert x = true := by
      split <;> exact inert_of_all rfl
    exact inert_append (inert_append (inert_append (inert_append (inert_append hmodifier
      (inert_of_all rfl)) (inert_identifier c.name)) (inert_of_all rfl))
      (inert_identifier c.supertype)) (inert_of_all rfl)
  | ofEnum e =>
    exact inert_append (inert_append (inert_of_all rfl) (inert_identifier e.name))
      (inert_of_all rfl)

end Inert

section Members

theorem member_of_inert {a : List Char} (h : ∀ c ∈ a, isInert c = true) :
    ∀ c ∈ a, isMemberChar c = true := fun c hc => by simp [isMemberChar, h c hc]

theorem member_append {a b : List Char} (ha : ∀ c ∈ a, isMemberChar c = true)
    (hb : ∀ c ∈ b, isMemberChar c = true) : ∀ c ∈ a ++ b, isMemberChar c = true :=
  List.forall_mem_append.2 ⟨ha, hb⟩

theorem member_printTags (ts : List TagLine) :
    ∀ c ∈ printTags Literal.blanked ts, isMemberChar c = true :=
  List.forall_mem_flatMap.2 fun t _ =>
    member_append (member_append (List.forall_mem_singleton.2 rfl) (member_of_inert (inert_tag t.tag)))
      (member_of_inert (inert_gap t.gap))

theorem member_properties (c : Class) : ∀ x ∈ c.body Literal.blanked, isMemberChar x = true :=
  member_append (member_of_inert (inert_gap c.openGap)) <|
    List.forall_mem_flatMap.2 fun p _ =>
      member_append (member_printTags p.tags) (member_of_inert (inert_line p))

theorem member_entries (e : Enum) : ∀ c ∈ e.entryPart Literal.blanked, isMemberChar c = true :=
  member_append (member_of_inert (inert_gap e.openGap)) <|
    List.forall_mem_flatMap.2 fun e _ =>
      member_append (member_printTags _) (member_of_inert (inert_call e))

theorem ending_cases (e : Enum) : ∀ c ∈ e.ending, c = ';' ∨ isBlank c = true := by
  rw [Enum.ending]
  cases e.terminator with
  | none => simp
  | some gap => exact List.forall_mem_cons.2 ⟨.inl rfl, fun c hc => .inr (gap.isBlank c hc)⟩

theorem ne_brace_body (d : Declaration) : ∀ c ∈ d.body Literal.blanked, c ≠ '{' ∧ c ≠ '}' := by
  have hmember : ∀ c, isMemberChar c = true → c ≠ '{' ∧ c ≠ '}' := by
    intro c hc
    constructor <;> rintro rfl <;> exact absurd hc (by decide)
  cases d with
  | ofClass c => exact fun x hx => hmember x (member_properties c x hx)
  | ofEnum e =>
    refine List.forall_mem_append.2 ⟨fun c hc => hmember c (member_entries e c hc), fun c hc => ?_⟩
    rcases ending_cases e c hc with rfl | hb
    · decide
    · exact hmember c (by simp [isMemberChar, isInert_of_isBlank hb])

end Members

section Texts

theorem plain_of_inert {a : List Char} (h : ∀ c ∈ a, isInert c = true) :
    ∀ c ∈ a, isPlain c = true := fun c hc => (isInert_iff.1 (h c hc)).1

theorem masks_of_isInert {a : List Char} (h : ∀ c ∈ a, isInert c = true) : Masks a a :=
  masks_of_isPlain (plain_of_inert h)

theorem masks_tag (t : Tag) : Masks (t.print Literal.text) (t.print Literal.blanked) := by
  cases t with
  | bare name h => exact masks_of_isInert (inert_identifier name)
  | doc l =>
    exact masks_literal l (plain_of_inert (inert_of_all rfl)) (by decide)
      (plain_of_inert (inert_of_all rfl)) (by decide)

theorem masks_tagLine (t : TagLine) : Masks (t.print Literal.text) (t.print Literal.blanked) :=
  masks_append (masks_append (masks_of_isPlain (List.forall_mem_singleton.2 rfl)) (masks_tag t.tag))
    (masks_of_isInert (inert_gap t.gap))

theorem masks_printTags (ts : List TagLine) :
    Masks (printTags Literal.text ts) (printTags Literal.blanked ts) :=
  masks_flatMap masks_tagLine ts

theorem masks_property (p : Property) :
    Masks (p.print Literal.text) (p.print Literal.blanked) :=
  masks_append (masks_printTags p.tags) (masks_of_isInert (inert_line p))

theorem masks_call (e : Entry) : Masks (e.call Literal.text) (e.call Literal.blanked) := by
  have hopen : ∀ c ∈ e.name.chars ++ ['('], isInert c = true :=
    inert_append (inert_identifier e.name) (inert_of_all rfl)
  have hrest : ∀ c ∈ e.flag ++ ([')'] ++ e.separator.chars), isInert c = true :=
    inert_append (inert_flag e) (inert_append (inert_of_all rfl) (inert_separator e.separator))
  have h := masks_literal e.value (plain_of_inert hopen) (by simp)
    (plain_of_inert hrest) (by simp)
  rw [Entry.call, Entry.call, List.append_assoc, List.append_assoc _ e.flag,
    List.append_assoc _ [')'], List.append_assoc _ e.flag]
  exact h

theorem masks_entry (e : Entry) : Masks (e.print Literal.text) (e.print Literal.blanked) :=
  masks_append (masks_printTags _) (masks_call e)

theorem masks_entryPart (e : Enum) :
    Masks (e.entryPart Literal.text) (e.entryPart Literal.blanked) :=
  masks_append (masks_of_isInert (inert_gap e.openGap)) (masks_flatMap masks_entry e.entries)

theorem masks_body (d : Declaration) : Masks (d.body Literal.text) (d.body Literal.blanked) := by
  cases d with
  | ofClass c =>
    exact masks_append (masks_of_isInert (inert_gap c.openGap))
      (masks_flatMap masks_property c.properties)
  | ofEnum e =>
    refine masks_append (masks_entryPart e) (masks_of_isPlain fun c hc => ?_)
    rcases ending_cases e c hc with rfl | hb
    · rfl
    · exact (isInert_iff.1 (isInert_of_isBlank hb)).1

theorem masks_print (d : Declaration) :
    Masks (d.print Literal.text) (d.print Literal.blanked) := by
  have hbrace : ∀ {c : Char}, isPlain c = true → Masks [c] [c] :=
    fun hc => masks_of_isPlain (by simpa using hc)
  exact masks_append (masks_append (masks_append (masks_printTags d.tags)
    (masks_of_isInert (inert_heading d))) (hbrace (by decide)))
    (masks_append (masks_append (masks_body d) (hbrace (by decide)))
      (masks_of_isInert (inert_gap d.closeGap)))

theorem masks_printAll (ds : List Declaration) :
    Masks (printAll Literal.text ds) (printAll Literal.blanked ds) := masks_flatMap masks_print ds

theorem mask_append_of_masks {a code rest : List Char} (h : Masks a code)
    (hrest : rest.head? ≠ some '"') :
    mask true (a ++ rest) = a ++ mask true rest ∧
      mask false (a ++ rest) = code ++ mask false rest := by
  obtain ⟨ms, hms, htrue, hfalse⟩ := h.2 rest hrest
  simp only [mask, marked, hms, List.map_append, htrue, hfalse, and_self]

theorem mask_of_masks {a code : List Char} (h : Masks a code) :
    mask true a = a ∧ mask false a = code := by
  have hend : ([] : List Char).head? ≠ some '"' := by simp
  simpa [mask, marked] using mask_append_of_masks h hend

theorem length_of_masks {a code : List Char} (h : Masks a code) : code.length = a.length := by
  rw [← (mask_of_masks h).2, length_mask]

end Texts

end KotlinSchema.Canonical
