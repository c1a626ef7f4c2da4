import KotlinSchema.Proofs.Canonical.Tags
import KotlinSchema.Proofs.Canonical.Types
import KotlinSchema.Proofs.Parsing.Sections

/-! How the members of written declarations are read: the properties of a class and the entries of
an enum. -/

namespace KotlinSchema.Canonical
open Text Source

section Keywords
variable {w : String} {next rest : List Char}

theorem keyword?_append (hnext : ∀ c ∈ next.head?, isBlank c = false) :
    keyword? w (w.toList ++ ' ' :: next) = some next := by
  rw [keyword?, after?_append, Option.bind_some, skipBlanks1?, if_pos (by rfl),
    skipBlanks_eq_self hnext]

theorem keyword?_eq_none {cs : List Char} {x y : Char} (hw : w.toList.head? = some x)
    (hcs : cs.head? = some y) (hne : x ≠ y) : keyword? w cs = none := by
  obtain ⟨ws, hws⟩ := List.head?_eq_some_iff.1 hw
  obtain ⟨cs, rfl⟩ := List.head?_eq_some_iff.1 hcs
  rw [keyword?, hws, after?, if_neg (Ne.symm hne), Option.bind_none]

theorem optionalKeyword_eq_none {ws : List String} {cs : List Char}
    (h : ∀ w ∈ ws, keyword? w cs = none) : optionalKeyword ws cs = (none, cs) := by
  rcases optionalKeyword_cases ws cs with hnone | ⟨w, hw, next, hnext, -⟩
  · exact hnone
  · simp [h w hw] at hnext

end Keywords

section Properties
variable {before : Option Char} {rest : List Char}

theorem canBeginName_of_isBlank {a : List Char} (ha : ∀ c ∈ a.getLast?, isBlank c = true)
    (hbefore : canBeginName before = true) : canBeginName (a.getLast?.or before) = true := by
  cases hlast : a.getLast? with
  | none => exact hbefore
  | some c =>
    have hc := ha c hlast
    have hdot : c ≠ '.' := by
      rintro rfl
      exact absurd hc (by decide)
    simp [canBeginName, not_isWord_of_isBlank hc, hdot]

def calleeAt (rest : List Char) : List Char := "value".toList ++ '<' :: rest

def delegateAt (rest : List Char) : List Char := "by".toList ++ ' ' :: calleeAt rest

def nameAt (p : Property) (rest : List Char) : List Char := p.name.chars ++ ' ' :: delegateAt rest

def delegation (rest : List Char) : Delegation :=
  ⟨.value, delegateAt rest, calleeAt rest, some ('<' :: rest), rest⟩

theorem delegation?_value (rest : List Char) :
    delegation? (' ' :: delegateAt rest) = some (delegation rest) := by
  have hkeyword : ∀ c ∈ (delegateAt rest).head?, isBlank c = false :=
    head?_append_of_solid (solid_of_all rfl) (by decide) _
  have hcallee : ∀ c ∈ (calleeAt rest).head?, isBlank c = false :=
    head?_append_of_solid (solid_of_all rfl) (by decide) _
  have hname : takeWord (calleeAt rest) = ("value".toList, '<' :: rest) := by
    refine takeWord_of_append (List.all_eq_true.1 rfl) ?_
    rintro c ⟨⟩
    rfl
  have hdelegate : Delegate.ofName? "value".toList = some .value := rfl
  have hby : keyword? "by" (delegateAt rest) = some (calleeAt rest) := keyword?_append hcallee
  have hbracket : skipBlanks ('<' :: rest) = '<' :: rest := skipBlanks_cons (by rfl) rest
  simp only [delegation?, skipBlanks1?, show isBlank ' ' = true from rfl, if_true,
    skipBlanks_eq_self hkeyword, hby, hname, hdelegate, hbracket, Option.bind_eq_bind,
    Option.bind_some]
  rfl

def propertyHead (p : Property) : List Char :=
  printTags Literal.text p.tags ++ ("val ".toList ++ p.name.chars ++ " by value<".toList)

theorem print_eq (p : Property) : p.print Literal.text = propertyHead p ++ p.tail := by
  simp only [Property.print, Property.line, propertyHead, List.append_assoc]

theorem words_of_line (name rest : List Char) :
    "val ".toList ++ name ++ " by value<".toList ++ rest =
      "val".toList ++ ' ' :: (name ++ ' ' :: delegateAt rest) := by
  have hline : "val ".toList ++ name ++ " by value<".toList ++ rest =
      ("val".toList ++ [' ']) ++ ((name ++ [' ']) ++ (("by".toList ++ [' ']) ++
        (("value".toList ++ ['<']) ++ rest))) :=
    Property.line_regroup rfl rfl
  rw [hline]
  simp only [delegateAt, calleeAt, List.append_assoc, List.cons_append, List.nil_append]

theorem propertyHead_eq (p : Property) (rest : List Char) :
    propertyHead p ++ rest = printTags Literal.text p.tags ++ ("val".toList ++ ' ' :: nameAt p rest) := by
  rw [propertyHead, List.append_assoc, words_of_line, nameAt]

theorem head?_delegateAt (rest : List Char) : (delegateAt rest).head? = some 'b' := by
  rw [delegateAt, List.head?_append, show "by".toList.head? = some 'b' from rfl, Option.some_or]

theorem skipBlanks_delegateAt (rest : List Char) :
    skipBlanks (' ' :: delegateAt rest) = delegateAt rest := by
  rw [show ' ' :: delegateAt rest = [' '] ++ delegateAt rest from rfl,
    skipBlanks_append (List.forall_mem_singleton.2 rfl), skipBlanks_eq_self]
  rw [head?_delegateAt]
  rintro c ⟨⟩
  rfl

def foundProperty (p : Property) (rest : List Char) : PropertyText where
  annotations := printTags Literal.text p.tags
  keywordAt := "val".toList ++ ' ' :: nameAt p rest
  nameAt := nameAt p rest
  name := p.name.chars
  declared := none
  delegation := delegation rest

theorem propertyText?_propertyHead (p : Property) (hbefore : canBeginName before = true)
    (rest : List Char) :
    propertyText? before (propertyHead p ++ rest) = some (foundProperty p rest, rest) := by
  have hval : ∀ c ∈ "val".toList, isWord c = true := List.all_eq_true.1 rfl
  have hrun : (annotationRun (propertyHead p ++ rest)).2 = "val".toList ++ ' ' :: nameAt p rest := by
    rw [propertyHead_eq]
    exact annotationRun_printTags passable_text (stops_of_isWord (by decide) hval _) p.tags
  have hannotations : between (propertyHead p ++ rest) ("val".toList ++ ' ' :: nameAt p rest) =
      printTags Literal.text p.tags := by
    rw [propertyHead_eq, between_append]
  have hbegin : canBeginName (charBefore before (propertyHead p ++ rest)
      ("val".toList ++ ' ' :: nameAt p rest)) = true := by
    rw [charBefore, hannotations]
    exact canBeginName_of_isBlank (isBlank_getLast?_printTags _ _) hbefore
  have hhead : ("val".toList ++ ' ' :: nameAt p rest).head? = some 'v' := by
    rw [List.head?_append, show "val".toList.head? = some 'v' from rfl, Option.some_or]
  have hoverride : optionalKeyword ["override"] ("val".toList ++ ' ' :: nameAt p rest) =
      (none, "val".toList ++ ' ' :: nameAt p rest) :=
    optionalKeyword_eq_none (List.forall_mem_singleton.2
      (keyword?_eq_none (x := 'o') rfl hhead (by decide)))
  have hname : keyword? "val" ("val".toList ++ ' ' :: nameAt p rest) = some (nameAt p rest) :=
    keyword?_append (head?_append_of_solid (solid_identifier p.name) p.name.ne_nil _)
  have hword : takeWord1? (nameAt p rest) = some (p.name.chars, ' ' :: delegateAt rest) := by
    refine takeWord1?_of_append p.name.ne_nil p.name.isWord ?_
    rintro c ⟨⟩
    rfl
  simp only [propertyText?, hrun, hbegin, if_true, hoverride, hname, Option.some_or, hword,
    hannotations, Option.bind_eq_bind, Option.bind_some, skipBlanks_delegateAt]
  split
  · rename_i typeAt hcolon
    have hby := head?_delegateAt rest
    rw [hcolon] at hby
    exact absurd hby (by simp)
  · rw [delegation?_value, Option.bind_some]
    rfl

theorem tail_eq {t a arguments g rest : List Char} (h : a = ['>', '(']) :
    t ++ a ++ arguments ++ [')'] ++ g ++ rest =
      t ++ '>' :: (['('] ++ arguments ++ [')'] ++ (g ++ rest)) := by
  subst h
  simp

theorem propertyOf_found (p : Property) (rest : List Char) :
    propertyOf (foundProperty p (p.tail ++ rest)) = p.described := by
  have htail : '<' :: (p.tail ++ rest) =
      '<' :: (p.type.chars ++ '>' :: (['('] ++ p.arguments ++ [')'] ++ (p.gap.chars ++ rest))) :=
    congrArg _ (tail_eq rfl)
  have htype : (foundProperty p (p.tail ++ rest)).typeAndCall =
      (some p.type.chars, ['('] ++ p.arguments ++ [')'] ++ (p.gap.chars ++ rest)) := by
    simp only [foundProperty, PropertyText.typeAndCall, delegation, Option.bind_some, htail,
      typeArgument?_chars]
  have htags : parseAnnotations (foundProperty p (p.tail ++ rest)).annotations =
      p.tags.map fun t => String.ofList (t.tag.print Literal.text) :=
    parseAnnotations_printTags p.nodup_tags
  have hdelegate : ((foundProperty p (p.tail ++ rest)).delegation.delegate == .nullableValue) = false := rfl
  simp only [propertyOf, htype, parseTypeRef_chars, htags, arguments?_call, Option.bind_some,
    defaultText?_arguments, Tag.doc?_printTags, Property.described, Option.map_map, hdelegate,
    Bool.or_false]
  rfl

theorem quiet_propertyText? {a : List Char} (hinert : ∀ c ∈ a, isInert c = true)
    (hcalm : Calm ["override", "val", "var"] (fun _ => False) a rest) :
    Quiet propertyText? a rest := by
  intro c hc hne before
  have hnone : ∀ w ∈ ["override", "val", "var"], keyword? w (c ++ rest) = none := by
    intro w hw
    by_contra hsome
    obtain ⟨next, hnext⟩ := Option.ne_none_iff_exists'.1 hsome
    exact hcalm c hc hne w hw next hnext
  have hrun := annotationRun_of_not_mem (not_mem_of_inert hinert) hc hne rest
  have hoverride : optionalKeyword ["override"] (c ++ rest) = (none, c ++ rest) :=
    optionalKeyword_eq_none (List.forall_mem_singleton.2 (hnone "override" (by simp)))
  simp only [propertyText?, hrun, hoverride, hnone "val" (by simp),
    hnone "var" (by simp), Option.or_none, Option.bind_eq_bind, Option.bind_none, ite_self]

theorem areWords_property : AreWords ["override", "val", "var"] := areWords_of_all rfl

theorem quiet_propertyTail (p : Property) (rest : List Char) : Quiet propertyText? p.tail rest :=
  quiet_propertyText? (inert_tail p) (calm_tail areWords_property rfl p)

theorem canBeginName_gap (g : Gap) : canBeginName g.chars.getLast? = true := by
  have h : canBeginName (g.chars.getLast?.or none) = true :=
    canBeginName_of_isBlank (fun c hc => g.isBlank c (List.mem_of_getLast? hc)) rfl
  rwa [Option.or_none] at h

theorem canBeginName_propertyTail (p : Property) :
    canBeginName (p.tail.getLast?.or (propertyHead p).getLast?) = true := by
  have hlast : p.tail.getLast? = p.gap.chars.getLast? :=
    List.getLast?_append_of_ne_nil _ p.gap.ne_nil
  obtain ⟨c, hc⟩ := Option.ne_none_iff_exists'.1 (mt List.getLast?_eq_none_iff.1 p.gap.ne_nil)
  rw [hlast, hc, Option.some_or, ← hc]
  exact canBeginName_gap p.gap

theorem quiet_gap_property (g : Gap) (rest : List Char) : Quiet propertyText? g.chars rest :=
  quiet_propertyText? (inert_gap g) (calm_gap areWords_property g)

/-- The properties of a class are read as they are written. -/
theorem map_findAll_properties (c : Class) :
    (findAll propertyText? (c.body Literal.text)).map propertyOf =
      c.properties.map (·.described) := by
  have hprint : c.properties.flatMap (·.print Literal.text) =
      c.properties.flatMap fun p => propertyHead p ++ p.tail := by
    simp only [print_eq]
  rw [findAll, Class.body, findFrom_of_quiet (quiet_gap_property c.openGap _), hprint]
  refine map_findFrom_items (fun p => ?_) (fun p ps before hbefore => ⟨_,
    propertyText?_propertyHead p hbefore _, propertyOf_found p _⟩) quiet_propertyTail canBeginName_propertyTail
    c.properties ?_
  · exact List.append_ne_nil_of_right_ne_nil _ <| List.append_ne_nil_of_left_ne_nil
      (List.append_ne_nil_of_right_ne_nil _ p.name.ne_nil) _
  · rw [Option.or_none]
    exact canBeginName_gap c.openGap

end Properties

section Entries
variable {before : Option Char}

def entryHead (e : Entry) : List Char :=
  printTags Literal.text (docTags e.doc e.docGap) ++
    (e.name.chars ++ ['('] ++ e.value.text ++ e.flag ++ [')'])

theorem entry_print_eq (e : Entry) : e.print Literal.text = entryHead e ++ e.separator.chars := by
  simp only [Entry.print, Entry.call, entryHead, List.append_assoc]

theorem entryHead_eq (e : Entry) (rest : List Char) :
    entryHead e ++ rest = printTags Literal.text (docTags e.doc e.docGap) ++
      (e.name.chars ++ '(' :: (e.value.text ++ (e.flag ++ ')' :: rest))) := by
  simp only [entryHead, List.append_assoc, List.cons_append, List.nil_append]

def foundEntry (e : Entry) (rest : List Char) : EntryText where
  annotations := printTags Literal.text (docTags e.doc e.docGap)
  nameAt := e.name.chars ++ '(' :: (e.value.text ++ (e.flag ++ ')' :: rest))
  name := e.name.chars
  value := e.value.text
  arguments := e.flag

theorem entryName?_of_isWord {name rest : List Char} (hname : ∀ c ∈ name, isWord c = true)
    (hhead : ∃ c ∈ name.head?, c.isAlpha = true ∨ c = '_')
    (hrest : ∀ c ∈ rest.head?, isWord c = false) :
    entryName? (name ++ rest) = some (name, rest) := by
  obtain ⟨c, hc, hcase⟩ := hhead
  obtain ⟨cs, rfl⟩ := List.head?_eq_some_iff.1 hc
  have hword := takeWord1?_of_append (List.cons_ne_nil c cs) hname hrest
  rw [List.cons_append] at hword ⊢
  rw [entryName?, if_pos (by simpa using hcase), hword]

theorem head_identifier (i : Identifier) : ∃ c ∈ i.chars.head?, c.isAlpha = true ∨ c = '_' := by
  obtain ⟨c, cs, hcs⟩ := List.exists_cons_of_ne_nil i.ne_nil
  have hc : c ∈ i.chars.head? := by simp [hcs]
  exact ⟨c, hc, i.head_isAlpha c hc⟩

theorem entryText?_call {name arguments rest : List Char} (tags : List TagLine) (l : Literal)
    (hname : ∀ c ∈ name, isWord c = true) (hhead : ∃ c ∈ name.head?, c.isAlpha = true ∨ c = '_')
    (hgroup : groupEnd? (fun nesting => nesting == .outer) .outer false (arguments ++ ')' :: rest) =
      some rest)
    (hbefore : canBeginName before = true) :
    entryText? before (printTags Literal.text tags ++
        (name ++ '(' :: (l.text ++ (arguments ++ ')' :: rest)))) =
      some (⟨printTags Literal.text tags, name ++ '(' :: (l.text ++ (arguments ++ ')' :: rest)),
        name, l.text, arguments⟩, rest) := by
  have hne : name ≠ [] := by
    obtain ⟨c, hc, -⟩ := hhead
    rintro rfl
    simp at hc
  have hrun : (annotationRun (printTags Literal.text tags ++
      (name ++ '(' :: (l.text ++ (arguments ++ ')' :: rest))))).2 =
        name ++ '(' :: (l.text ++ (arguments ++ ')' :: rest)) :=
    annotationRun_printTags passable_text (stops_of_isWord hne hname _) _
  have hannotations := between_append (printTags Literal.text tags)
    (name ++ '(' :: (l.text ++ (arguments ++ ')' :: rest)))
  have hbegin : canBeginName (charBefore before (printTags Literal.text tags ++
      (name ++ '(' :: (l.text ++ (arguments ++ ')' :: rest))))
        (name ++ '(' :: (l.text ++ (arguments ++ ')' :: rest)))) = true := by
    rw [charBefore, hannotations]
    exact canBeginName_of_isBlank (isBlank_getLast?_printTags _ _) hbefore
  have hentry : entryName? (name ++ '(' :: (l.text ++ (arguments ++ ')' :: rest))) =
      some (name, '(' :: (l.text ++ (arguments ++ ')' :: rest))) := by
    refine entryName?_of_isWord hname hhead ?_
    rintro c ⟨⟩
    rfl
  have hparen : after? ['('] (skipBlanks ('(' :: (l.text ++ (arguments ++ ')' :: rest)))) =
      some (l.text ++ (arguments ++ ')' :: rest)) := by
    rw [skipBlanks_cons (by rfl)]
    exact after?_append ['('] _
  have hinside : skipBlanks (l.text ++ (arguments ++ ')' :: rest)) =
      l.text ++ (arguments ++ ')' :: rest) := by
    refine skipBlanks_eq_self ?_
    rintro c ⟨⟩
    rfl
  have harguments : (between (arguments ++ ')' :: rest) rest).dropLast = arguments := by
    have htext : arguments ++ ')' :: rest = (arguments ++ [')']) ++ rest := by simp
    rw [htext, between_append, List.dropLast_concat]
  simp only [entryText?, hrun, hbegin, if_true, hentry, hparen, hinside, literal?_text, hgroup,
    hannotations, harguments, Option.bind_eq_bind, Option.bind_some]
  rfl

theorem isArgumentChar_flag (e : Entry) : ∀ c ∈ e.flag, isArgumentChar c = true := by
  rw [Entry.flag]
  split <;> exact List.all_eq_true.1 rfl

theorem entryText?_entryHead (e : Entry) (hbefore : canBeginName before = true)
    (rest : List Char) :
    entryText? before (entryHead e ++ rest) = some (foundEntry e rest, rest) := by
  have hgroup : groupEnd? (fun nesting => nesting == .outer) .outer false (e.flag ++ ')' :: rest) =
      some rest := by
    rw [groupEnd?_of_isArgumentChar (isArgumentChar_flag e)]
    simp [groupEnd?]
  rw [entryHead_eq]
  exact entryText?_call _ e.value e.name.isWord (head_identifier e.name) hgroup hbefore

theorem isOutdated_flag (e : Entry) : (!(findAll outdatedFlag? e.flag).isEmpty) = e.isOutdated := by
  rw [Entry.flag]
  cases e.isOutdated with
  | true => decide +kernel
  | false => rfl

theorem entryOf_found (e : Entry) (rest : List Char) :
    entryOf (foundEntry e rest) = e.described := by
  simp only [entryOf, foundEntry, EntryText.isOutdated, isOutdated_flag, literalText_text,
    Tag.doc?_docTags, Entry.described]
  rfl

theorem quiet_entryText? {a : List Char} (h : ∀ c ∈ a, isBlank c = true ∨ c = ',')
    (rest : List Char) : Quiet entryText? a rest := by
  intro c hc hne before
  obtain ⟨x, c, rfl⟩ := List.exists_cons_of_ne_nil hne
  have hx : x ≠ '@' ∧ (x.isAlpha || x == '_') = false := by
    rcases h x (hc.subset List.mem_cons_self) with hb | rfl
    · refine ⟨?_, ?_⟩
      · rintro rfl
        exact absurd hb (by decide)
      · by_contra hname
        have hword : isWord x = true := by
          rcases Bool.or_eq_true_iff.1 (Bool.of_not_eq_false hname) with halpha | hline
          · exact isWord_of_isAlphanum (by simp [Char.isAlphanum, halpha])
          · rw [beq_iff_eq] at hline
            subst hline
            rfl
        simp [not_isWord_of_isBlank hb] at hword
    · decide
  have hhead : (x :: c ++ rest).head? ≠ some '@' := by simpa using hx.1
  have hname : entryName? (x :: c ++ rest) = none := by
    rw [List.cons_append, entryName?, if_neg (by simp [hx.2])]
  simp only [entryText?, annotationRun_of_head hhead, hname, Option.bind_eq_bind,
    Option.bind_none, ite_self]

theorem canBeginName_separator (e : Entry) :
    canBeginName (e.separator.chars.getLast?.or (entryHead e).getLast?) = true := by
  cases hlast : e.separator.chars.getLast? with
  | none =>
    rw [Option.none_or, entryHead, ← List.append_assoc, List.getLast?_concat]
    rfl
  | some c =>
    rw [Option.some_or]
    rcases e.separator.isBlank c (List.mem_of_getLast? hlast) with hb | rfl
    · exact canBeginName_gap ⟨[c], by simp, by simpa using hb⟩
    · rfl

/-- The entries of an enum are read as they are written. -/
theorem map_findAll_entries (e : Enum) :
    (findAll entryText? (e.entryPart Literal.text)).map entryOf = e.entries.map (·.described) := by
  have hprint : e.entries.flatMap (·.print Literal.text) =
      e.entries.flatMap fun e => entryHead e ++ e.separator.chars := by
    simp only [entry_print_eq]
  rw [findAll, Enum.entryPart, findFrom_of_quiet (quiet_entryText? (fun c hc =>
    .inl (e.openGap.isBlank c hc)) _), hprint]
  refine map_findFrom_items (fun e => ?_) (fun e es before hbefore => ⟨_,
    entryText?_entryHead e hbefore _, entryOf_found e _⟩)
    (fun e => quiet_entryText? e.separator.isBlank) canBeginName_separator e.entries ?_
  · exact List.append_ne_nil_of_right_ne_nil _ (by simp)
  · rw [Option.or_none]
    exact canBeginName_gap e.openGap

end Entries

section Bodies
variable {a code : List Char}

theorem mem_of_shown {ms : List Marked} (hshown : ms.map (shown false) = code) {m : Marked}
    (hm : m ∈ ms) (hcode : m.2 = .code) : m.1 ∈ code := by
  have hkept : shown false m = m.1 := by
    obtain ⟨c, r⟩ := m
    exact shown_of_kept (by rw [show r = .code from hcode]; rfl)
  exact hshown ▸ hkept ▸ List.mem_map_of_mem hm

theorem ne_brace_of_shown {ms : List Marked} (h : ∀ c ∈ code, c ≠ '{' ∧ c ≠ '}')
    (hshown : ms.map (shown false) = code) : ∀ m ∈ ms, m ≠ ('{', .code) ∧ m ≠ ('}', .code) := by
  intro m hm
  constructor <;> rintro rfl
  · exact (h _ (mem_of_shown hshown hm rfl)).1 rfl
  · exact (h _ (mem_of_shown hshown hm rfl)).2 rfl

theorem openBrace?_eq_none {ms : List Marked}
    (h : ∀ m ∈ ms, m ≠ ('{', .code) ∧ m ≠ ('}', .code)) (offset outermost : Nat) :
    openBrace? 0 offset outermost ms = none := by
  induction ms generalizing offset with
  | nil => rfl
  | cons m ms ih =>
    obtain ⟨hopen, hclose⟩ := h m List.mem_cons_self
    rw [openBrace?, if_neg hopen, if_neg hclose, ih fun n hn => h n (List.mem_cons_of_mem m hn)]

theorem blankNested_eq_map {ms : List Marked}
    (h : ∀ m ∈ ms, m ≠ ('{', .code) ∧ m ≠ ('}', .code)) : blankNested 0 ms = ms.map Prod.fst := by
  induction ms with
  | nil => rfl
  | cons m ms ih =>
    obtain ⟨hopen, hclose⟩ := h m List.mem_cons_self
    rw [blankNested, if_neg hopen, if_neg hclose,
      ih fun n hn => h n (List.mem_cons_of_mem m hn)]
    simp

theorem memberText_of_ne_brace (h : ∀ m ∈ marked a, m ≠ ('{', .code) ∧ m ≠ ('}', .code)) :
    memberText a = .ok (mask true a) := by
  have hbraces : ∀ m ∈ marked (mask true a), m ≠ ('{', .code) ∧ m ≠ ('}', .code) := by
    intro m hm
    rw [marked_mask] at hm
    obtain ⟨n, hn, rfl⟩ := List.mem_map.1 hm
    exact ⟨fun hopen => (h n hn).1 ((remark_eq_code_iff (by decide) (by decide) n).1 hopen),
      fun hclose => (h n hn).2 ((remark_eq_code_iff (by decide) (by decide) n).1 hclose)⟩
  rw [memberText, maskNested, openBrace?_eq_none hbraces]
  simp only [blankNested_eq_map hbraces]
  rw [marked, map_fst_mark]

theorem memberText_eq_self (h : Masks a code) (hcode : ∀ c ∈ code, c ≠ '{' ∧ c ≠ '}') :
    memberText a = .ok a := by
  rw [memberText_of_ne_brace (ne_brace_of_shown hcode (mask_of_masks h).2), (mask_of_masks h).1]

theorem entrySection_append (h : Masks a code) (hcode : ∀ c ∈ code, c ≠ ';') {rest : List Char}
    (hrest : ∀ c ∈ rest.head?, c = ';') : entrySection (a ++ rest) = a := by
  have hquote : rest.head? ≠ some '"' := fun hq => absurd (hrest '"' hq) (by decide)
  obtain ⟨ms, hms, htrue, hfalse⟩ := h.2 rest hquote
  have hnone : ∀ m ∈ ms, m ≠ (';', .code) := by
    rintro m hm rfl
    exact hcode _ (mem_of_shown hfalse hm rfl) rfl
  have hnext : ∀ m ∈ (mark .code rest).head?, m = (';', .code) := by
    cases rest with
    | nil => simp
    | cons c rest =>
      obtain rfl := hrest c rfl
      simp [step_code_eq]
  have hfst : ms.map Prod.fst = a := by
    have h := congrArg (List.map Prod.fst) hms
    rw [map_fst_mark, List.map_append, map_fst_mark] at h
    exact (List.append_cancel_right h).symm
  rw [entrySection_of_marked hms hnone hnext, hfst]

theorem block_of_masks (h : Masks a code) (hcode : ∀ c ∈ code, c ≠ '{' ∧ c ≠ '}')
    (start rest : List Char) :
    block (start ++ '{' :: (a ++ '}' :: rest)) start.length = .ok a := by
  have hopen : (start ++ '{' :: (a ++ '}' :: rest))[start.length]? = some '{' := by simp
  have hdrop : (start ++ '{' :: (a ++ '}' :: rest)).drop (start.length + 1) = a ++ '}' :: rest := by
    rw [List.drop_append]
    simp
  have hclosing : closingOffset? '{' '}' 1 (marked (a ++ '}' :: rest)) = some a.length := by
    obtain ⟨ms, hms, htrue, hfalse⟩ := h.2 ('}' :: rest) (by simp)
    have hbraces := ne_brace_of_shown hcode hfalse
    have hbrace : mark .code ('}' :: rest) = ('}', .code) :: mark .code rest := by
      simp [step_code_eq]
    rw [marked, hms, closingOffset?_append hbraces, hbrace, closingOffset?_of_closes rfl rfl,
      ← congrArg List.length htrue]
    simp
  rw [block_eq_map, blockEnd_of_open hopen, hdrop, hclosing]
  simp only [Except.map, Nat.add_sub_cancel_left, List.take_left]

theorem parseProperties_body (c : Class) :
    parseProperties (c.body Literal.text) = .ok (c.properties.map (·.described)) := by
  have htext : memberText (c.body Literal.text) = .ok (c.body Literal.text) :=
    memberText_eq_self (masks_body (.ofClass c)) (ne_brace_body (.ofClass c))
  have hnames : (c.properties.map (·.described)).Pairwise
      fun p q => (q.name == p.name) = false := by
    refine List.pairwise_map.2 ((List.pairwise_map.1 c.nodup_names).imp fun hne => ?_)
    exact beq_eq_false_iff_ne.2 fun he => hne (String.ofList_injective he).symm
  rw [parseProperties_of_memberText htext, map_findAll_properties, eraseDupsBy_of_pairwise hnames]

theorem parseEntries_body (e : Enum) :
    parseEntries (e.body Literal.text) = .ok (e.entries.map (·.described)) := by
  have htext : memberText (e.body Literal.text) = .ok (e.body Literal.text) :=
    memberText_eq_self (masks_body (.ofEnum e)) (ne_brace_body (.ofEnum e))
  have hsection : entrySection (e.body Literal.text) = e.entryPart Literal.text := by
    refine entrySection_append (masks_entryPart e) (fun c hc => ?_) ?_
    · rintro rfl
      exact absurd (member_entries e _ hc) (by decide)
    · rw [Enum.ending]
      cases e.terminator with
      | none => simp
      | some gap =>
        rintro c ⟨⟩
        rfl
  rw [parseEntries_of_memberText htext, hsection, map_findAll_entries]

end Bodies

end KotlinSchema.Canonical
