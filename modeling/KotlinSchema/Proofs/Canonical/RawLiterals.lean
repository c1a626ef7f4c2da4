import KotlinSchema.Proofs.Canonical.Documentation
import KotlinSchema.Proofs.Canonical.Search
import KotlinSchema.Proofs.Parsing.Faults
import KotlinSchema.Proofs.Parsing.Flags

/-! Raw literals. The reader of regions takes a raw literal as one, but documentation and schema
values are read as ordinary literals, of which three stand in a row where a raw one is written. The
first of them is empty, and it is all that is read; what the raw literal holds counts among the
arguments after it. -/

namespace KotlinSchema.Canonical
open Text Source

def isBare (c : Char) : Bool := c != '"' && c != '\\' && c != '\n'

theorem isBare_iff {c : Char} : isBare c = true ↔ c ≠ '"' ∧ c ≠ '\\' ∧ c ≠ '\n' := by
  simp [isBare, and_assoc]

/-- A text that is written as it is in both. -/
structure PlainText where
  chars : List Char
  isBare : ∀ c ∈ chars, isBare c = true

theorem spells_self {s : List Char} (h : ∀ c ∈ s, isBare c = true) : Spells s s := by
  induction s with
  | nil => exact .nil
  | cons c s ih =>
    obtain ⟨hc, hs⟩ := List.forall_mem_cons.1 h
    obtain ⟨hquote, hslash, hline⟩ := isBare_iff.1 hc
    exact .plain hquote hslash hline (ih hs)

def Literal.empty : Literal := ⟨[], [], .nil⟩

namespace PlainText
variable (t : PlainText)

def literal : Literal := ⟨t.chars, t.chars, spells_self t.isBare⟩

def raw : List Char := ['"', '"', '"'] ++ (t.chars ++ ['"', '"', '"'])

theorem quote_not_mem : '"' ∉ t.chars := fun h => (isBare_iff.1 (t.isBare '"' h)).1 rfl

theorem isLiteral_raw : IsLiteral t.raw where
  oneLine := by
    have hline : '\n' ∉ t.chars := fun h =>
      (isBare_iff.1 (t.isBare '\n' h)).2.2 rfl
    simp [raw, hline]
  mark_eq rest hrest := by
    have hcontent : ¬['"', '"', '"'] <:+: t.chars := fun h => t.quote_not_mem (h.subset (by simp))
    have hlast : t.chars.getLast? ≠ some '"' := fun h => t.quote_not_mem (List.mem_of_getLast? h)
    have hends : (Token.raw t.chars 0 hcontent hlast).EndsBefore rest := hrest
    exact (reads_token hends).mark_eq

theorem raw_eq : t.raw = Literal.empty.text ++ (t.literal.text ++ Literal.empty.text) := by
  simp [raw, Literal.text, Literal.empty, literal]

end PlainText

section Documentation

def tagWith (arguments : List Char) : List Char :=
  KotlinSchema.Tag.docName.toList ++ '(' :: (arguments ++ [')'])

def documented (literal gap header : List Char) : List Char :=
  '@' :: tagWith literal ++ (gap ++ header)

/-- A class of the schema is found by its header, with a documentation text. -/
def DocumentedAs (source : List Char) (origin : Option String) (h : Header) (doc : List Char) :
    Prop :=
  ∃ d ∈ admitted source origin, d.name = String.ofList h.name ∧
    d.bodyOffset = offsetOf source h.braceAt ∧
    KotlinSchema.Tag.doc? d.annotations = some (String.ofList doc)

variable {literal gap header : List Char} {h : Header}

theorem isWord_of_classHeader? {cs : List Char} (hclass : classHeader? cs = some h) :
    ∃ c cs', cs = c :: cs' ∧ isWord c = true := by
  by_contra hnone
  have hdull : ∀ w ∈ classWords, ∀ next, keyword? w cs = some next → DullClass next := by
    intro w hw next hnext
    obtain ⟨b, more, -, hcs, -⟩ := exists_of_keyword? hnext
    obtain ⟨hne, hword⟩ := passOver_class.areWords w hw
    obtain ⟨c, w', hw'⟩ := List.exists_cons_of_ne_nil hne
    rw [hw'] at hcs hword
    exact absurd ⟨c, _, hcs, List.all_eq_true.1 hword c List.mem_cons_self⟩ hnone
  rw [classHeader?_eq_none hdull] at hclass
  exact absurd hclass (by simp)

theorem head?_ne_quote_of_classHeader? (hclass : classHeader? (mask false header) = some h) :
    header.head? ≠ some '"' := by
  intro hhead
  obtain ⟨header, rfl⟩ := List.head?_eq_some_iff.1 hhead
  obtain ⟨c, cs, hcs, hc⟩ := isWord_of_classHeader? hclass
  have hregion : (step .code '"' header).1 = .literal := by
    rw [step_code_eq]
    split_ifs <;> simp_all
  have hblank : c = ' ' := by
    rw [mask, marked, mark_cons, hregion, List.map_cons] at hcs
    exact (List.cons.inj hcs).1.symm
  subst hblank
  exact absurd hc (by decide)

def IsList (arguments : List Char) : Prop :=
  ∀ rest, groupEnd? (fun _ => true) .outer false (arguments ++ ')' :: rest) = some rest

theorem annotationEnd?_tagWith (hlist : IsList literal) (rest : List Char) :
    annotationEnd? ('@' :: tagWith literal ++ rest) = some rest := by
  have hlist : argumentListEnd? ('(' :: (literal ++ ')' :: rest)) = some rest := by
    rw [argumentListEnd?, skipBlanks_cons rfl]
    exact hlist rest
  have hparen : ∀ c ∈ ('(' :: (literal ++ ')' :: rest)).head?, isWord c = false := by
    rintro c ⟨⟩
    rfl
  have htext : '@' :: tagWith literal ++ rest =
      '@' :: (KotlinSchema.Tag.docName.toList ++ '(' :: (literal ++ ')' :: rest)) := by
    simp [tagWith]
  rw [htext, annotationEnd?_of_word (by decide) KotlinSchema.Tag.isWord_docName hparen, hlist,
    Option.getD_some]

theorem isTag_tagWith (hlist : IsList literal) : IsTag (tagWith literal) := by
  have hblanks : ∀ c ∈ ([] : List Char), isBlank c = true := by simp
  exact .applied (by decide) KotlinSchema.Tag.isWord_docName hblanks hlist

theorem annotatedHeader?_documented {code : List Char} (hlist : IsList literal)
    (hgap : ∀ c ∈ gap, isBlank c = true) (hclass : classHeader? code = some h) :
    annotatedHeader? classHeader? (documented literal gap code) =
      some (⟨documented literal gap code, code, h⟩, h.rest) := by
  obtain ⟨c, cs, rfl, hc⟩ := isWord_of_classHeader? hclass
  have hhead : (c :: cs).head? ≠ some '@' := by
    rintro ⟨⟩
    exact absurd hc (by decide)
  have hend : annotationAndBlanksEnd? (documented literal gap (c :: cs)) = some (c :: cs) := by
    rw [annotationAndBlanksEnd?, documented, annotationEnd?_tagWith hlist, Option.map_some,
      skipBlanks_append hgap, skipBlanks_cons (not_isBlank_of_isWord hc)]
  have hrun : (annotationRun (documented literal gap (c :: cs))).2 = c :: cs := by
    rw [annotationRun, consecutive_of_some _ hend]
    exact congrArg Prod.snd (annotationRun_of_head hhead)
  rw [annotatedHeader?, annotationStops, hrun, List.findSome?_cons, hclass]
  rfl

theorem mask_documented (hliteral : IsLiteral literal) (hgap : ∀ c ∈ gap, isBlank c = true)
    (hquote : header.head? ≠ some '"') :
    mask true (documented literal gap header) = documented literal gap (mask true header) ∧
      mask false (documented literal gap header) =
        documented (List.replicate literal.length ' ') gap (mask false header) := by
  have hname : ∀ c ∈ '@' :: (KotlinSchema.Tag.docName.toList ++ ['(']),
      isPlain c = true := List.all_eq_true.1 rfl
  have hclose : ∀ c ∈ ')' :: gap, isPlain c = true :=
    List.forall_mem_cons.2 ⟨rfl, fun c hc => (isInert_iff.1 (isInert_of_isBlank (hgap c hc))).1⟩
  have htext : ∀ arguments rest : List Char, documented arguments gap rest =
      '@' :: (KotlinSchema.Tag.docName.toList ++ ['(']) ++ arguments ++ ')' :: gap ++ rest := by
    intro arguments rest
    simp [documented, tagWith]
  obtain ⟨htrue, hfalse⟩ := mask_append_of_masks
    (masks_isLiteral hliteral hname (by simp) hclose (by simp)) hquote
  exact ⟨by rw [htext, htext, htrue], by rw [htext, htext, hfalse]⟩

theorem exists_annotated (hliteral : IsLiteral literal) (hlist : IsList literal)
    (hgap : ∀ c ∈ gap, isBlank c = true) (hclass : classHeader? (mask false header) = some h)
    (hschema : isSchemaClass (String.ofList h.name) (some (String.ofList h.supertype)) = true)
    (origin : Option String) :
    ∃ d ∈ admitted (documented literal gap header) origin, d.name = String.ofList h.name ∧
      d.bodyOffset = offsetOf (documented literal gap header) h.braceAt ∧
      d.annotations = [String.ofList (tagWith literal)] := by
  let code := documented (List.replicate literal.length ' ') gap (mask false header)
  let tagText := documented literal gap (mask true header)
  let found : AnnotatedHeader := ⟨code, mask false header, h⟩
  obtain ⟨htrue, hfalse⟩ := mask_documented hliteral hgap (head?_ne_quote_of_classHeader? hclass)
  have hblanks : IsList (List.replicate literal.length ' ') := by
    intro rest
    rw [groupEnd?_of_isArgumentChar fun c hc => by rw [List.eq_of_mem_replicate hc]; rfl]
    rfl
  have hfind : found ∈ findAll (fun _ => annotatedHeader? classHeader?) code := by
    have hread := annotatedHeader?_documented hblanks hgap hclass
    rw [documented, List.cons_append] at hread
    simp only [findAll, code, documented, List.cons_append]
    rw [findFrom_some hread]
    exact List.mem_cons_self
  have hscan : declarationOf code tagText origin found ∈
      scan (documented literal gap header) origin := by
    refine (perm_scan _ _).mem_iff.2 (List.mem_append_right _ ?_)
    rw [htrue, hfalse]
    exact List.mem_map_of_mem hfind
  have hkind : h.kind = .classLike := (spelled_of_classHeader? hclass).2.kind
  have hlength : (tagWith (List.replicate literal.length ' ')).length =
      (tagWith literal).length := by simp [tagWith]
  have hstart : offsetOf code code = 0 := Nat.sub_self _
  have hstop : offsetOf code (mask false header) = ('@' :: tagWith literal ++ gap).length := by
    simp only [code, documented, ← List.append_assoc, offsetOf_append]
    simp [hlength]
  have htags : (tagText.take (offsetOf code found.stop)).drop (offsetOf code found.start) =
      '@' :: tagWith literal ++ gap := by
    rw [hstop, hstart, List.drop_zero]
    simp only [tagText, documented, ← List.append_assoc, List.take_left]
  refine ⟨declarationOf code tagText origin found, List.mem_filter.2 ⟨hscan, ?_⟩, rfl, ?_, ?_⟩
  · simp only [Declaration.isAdmitted, declarationOf, found, hkind, hschema]
  · simp [declarationOf, offsetOf, code, found, documented, hlength]
  · have hprint : printAnnotations [(String.ofList (tagWith literal), gap)] =
        '@' :: tagWith literal ++ gap := by simp [printAnnotations]
    rw [declarationOf, htags, ← hprint, parseAnnotations_print]
    · rfl
    · simpa using isTag_tagWith hlist
    · simpa using hgap

end Documentation

section Lists
variable (t : PlainText)

theorem isList_text (l : Literal) : IsList l.text := by
  intro rest
  rw [passable_text]
  rfl

theorem isList_raw : IsList t.raw := by
  intro rest
  rw [t.raw_eq, List.append_assoc, List.append_assoc, passable_text, passable_text, passable_text]
  rfl

theorem doc?_text (l : Literal) :
    KotlinSchema.Tag.doc? [String.ofList (tagWith l.text)] = some l.string := by
  have h := KotlinSchema.Tag.doc?_of_doc l []
  rwa [print_docTag] at h

theorem doc?_raw : KotlinSchema.Tag.doc? [String.ofList (tagWith t.raw)] = some "" := by
  let rest := t.literal.text ++ (Literal.empty.text ++ [')'])
  have hnone : ∀ tag ∈ ([] : List String), KotlinSchema.Tag.name tag ≠ KotlinSchema.Tag.docName := by
    simp
  have hraw : t.raw ++ [')'] = Literal.empty.text ++ rest := by
    simp only [t.raw_eq, rest, List.append_assoc]
  have hend : (skipBlanks rest).head? ≠ some '+' := by
    rw [skipBlanks_text, Literal.text]
    simp
  have hdoc := KotlinSchema.Tag.doc?_of_docTag hnone (t.raw ++ [')']) []
  rw [hraw, KotlinSchema.Tag.firstLiteral?_text, Option.map_some,
    KotlinSchema.Tag.joinedTexts_of_end (literal?_text _ _) hend, literalText_text, ← hraw] at hdoc
  exact hdoc

end Lists

section Entries
variable {name : List Char}

def entryWith (name arguments : List Char) : List Char := name ++ '(' :: (arguments ++ [')'])

theorem parseEntries_entryWith {text arguments : List Char} (hname : ∀ c ∈ name, isWord c = true)
    (hhead : ∃ c ∈ name.head?, c.isAlpha = true ∨ c = '_') (hliteral : IsLiteral text) (l : Literal)
    (htext : text = l.text ++ arguments)
    (hgroup : groupEnd? (fun nesting => nesting == .outer) .outer false (arguments ++ [')']) =
      some []) :
    ∃ e : EntryText, e.arguments = arguments ∧ parseEntries (entryWith name text) =
      .ok [{ name := String.ofList name, schemaValue := l.string, isOutdated := e.isOutdated }] := by
  let found : EntryText := ⟨[], entryWith name text, name, l.text, arguments⟩
  have hinert : ∀ c ∈ name ++ ['('], isInert c = true :=
    inert_append (fun c hc => isInert_of_isWord (hname c hc)) (inert_of_all rfl)
  have hclose : ∀ c ∈ [')'], isInert c = true := inert_of_all rfl
  have hentry : ∀ arguments, entryWith name arguments = name ++ ['('] ++ arguments ++ [')'] := by
    intro arguments
    simp [entryWith]
  have hmasks : Masks (entryWith name text)
      (entryWith name (List.replicate text.length ' ')) := by
    rw [hentry, hentry]
    exact masks_isLiteral hliteral (plain_of_inert hinert) (by simp) (plain_of_inert hclose)
      (by simp)
  have hcode : ∀ c ∈ entryWith name (List.replicate text.length ' '), isInert c = true := by
    rw [hentry]
    refine inert_append (inert_append hinert fun c hc => ?_) hclose
    rw [List.eq_of_mem_replicate hc]
    rfl
  have hmember : memberText (entryWith name text) = .ok (entryWith name text) :=
    memberText_eq_self hmasks fun c hc =>
      ⟨(isInert_iff.1 (hcode c hc)).2.1, (isInert_iff.1 (hcode c hc)).2.2.1⟩
  have hsection : entrySection (entryWith name text) = entryWith name text := by
    have hend : ∀ c ∈ ([] : List Char).head?, c = ';' := by simp
    have h := entrySection_append hmasks (fun c hc => (isInert_iff.1 (hcode c hc)).2.2.2.1)
      hend
    rwa [List.append_nil] at h
  have hread : entryText? none (entryWith name text) = some (found, []) := by
    have hbefore : canBeginName none = true := rfl
    have h := entryText?_call [] l hname hhead hgroup hbefore
    simpa [entryWith, found, htext, printTags] using h
  have hfind : findAll entryText? (entryWith name text) = [found] := by
    have hne : entryWith name text ≠ [] := by simp [entryWith]
    have h := findFrom_of_read (b := []) hne (by rwa [List.append_nil])
    rwa [List.append_nil] at h
  refine ⟨found, rfl, ?_⟩
  rw [parseEntries_of_memberText hmember, hsection, hfind, List.map_singleton, entryOf,
    literalText_text]
  rfl

end Entries

section Flags
variable {a b s x m y : List Char}

theorem exists_within (hne : m ≠ []) (ha : ∀ c ∈ m, c ∉ a) (hb : ∀ c ∈ m, c ∉ b)
    (h : a ++ (s ++ b) = x ++ (m ++ y)) :
    ∃ x' y', x = a ++ x' ∧ s = x' ++ (m ++ y') ∧ y = y' ++ b := by
  obtain ⟨x', rfl, hrest⟩ : ∃ x', x = a ++ x' ∧ s ++ b = x' ++ (m ++ y) := by
    rcases List.append_eq_append_iff.1 h with ⟨x', hx, hrest⟩ | ⟨y', hy, hrest⟩
    · exact ⟨x', hx, hrest⟩
    · cases y' with
      | nil => exact ⟨[], by simpa using hy.symm, by simpa using hrest.symm⟩
      | cons c y' =>
        obtain ⟨d, m, rfl⟩ := List.exists_cons_of_ne_nil hne
        obtain rfl : d = c := (List.cons.inj hrest).1
        exact absurd (hy ▸ by simp) (ha d List.mem_cons_self)
  rw [← List.append_assoc] at hrest
  rcases List.append_eq_append_iff.1 hrest with ⟨z, hz, hb'⟩ | ⟨y', hs, hy⟩
  · rcases List.eq_nil_or_concat z with rfl | ⟨z, c, rfl⟩
    · exact ⟨x', [], rfl, by simpa using hz.symm, by simpa using hb'.symm⟩
    · have hlast := congrArg List.getLast? hz
      rw [List.getLast?_append_of_ne_nil _ hne, List.concat_eq_append, ← List.append_assoc,
        List.getLast?_concat] at hlast
      exact absurd (hb' ▸ by simp) (hb c (List.mem_of_getLast? hlast))
  · exact ⟨x', y', rfl, by rw [hs, List.append_assoc], hy⟩

theorem exists_isIn_quoted (ha : ∀ c ∈ a, c = '"') (hb : ∀ c ∈ b, c = '"') :
    (∃ f : Flag, f.IsIn (a ++ (s ++ b))) ↔ ∃ f : Flag, f.IsIn s := by
  have hword : ∀ {q : List Char}, (∀ c ∈ q, c = '"') → ∀ c ∈ q, isWord c = false := by
    intro q hq c hc
    rw [hq c hc]
    decide
  constructor
  · rintro ⟨f, hf⟩
    have hinner : ∀ {q : List Char}, (∀ c ∈ q, c = '"') → ∀ c ∈ f.chars, c ∉ q := by
      intro q hq c hc hmem
      exact (hf.isInner c hc).1 (.inl (hq c hmem))
    have hne : f.chars ≠ [] := by simp [Flag.chars_eq]
    obtain ⟨before, after, hbefore, hs, hafter⟩ := exists_within hne (hinner ha) (hinner hb) hf.spelled
    refine ⟨⟨before, f.left, f.right, after⟩, hs, hf.left, hf.right, fun c hc => ?_, fun c hc => ?_⟩
    · refine hf.begins c ?_
      rw [hbefore, List.getLast?_append, Option.mem_def.1 hc, Option.some_or]
      rfl
    · refine hf.ends c ?_
      rw [hafter, List.head?_append, Option.mem_def.1 hc, Option.some_or]
      rfl
  · rintro ⟨f, hf⟩
    refine ⟨⟨a ++ f.before, f.left, f.right, f.after ++ b⟩, ?_, hf.left, hf.right, fun c hc => ?_,
      fun c hc => ?_⟩
    · simp [hf.spelled, Flag.chars_eq]
    · rw [List.getLast?_append] at hc
      rcases Option.or_eq_some_iff.1 hc with hc | ⟨-, hc⟩
      · exact hf.begins c hc
      · exact hword ha c (List.mem_of_getLast? hc)
    · rw [List.head?_append] at hc
      rcases Option.or_eq_some_iff.1 hc with hc | ⟨-, hc⟩
      · exact hf.ends c hc
      · exact hword hb c (List.mem_of_mem_head? hc)

end Flags

/-- A text in a raw literal is not read. A class documented with it has the empty documentation, and
an entry has the empty schema value and is outdated if the text has the flag; with the ordinary
literal both have the text. -/
theorem raw_literals_read_empty (t : PlainText) {gap header name : List Char} {h : Header}
    (hgap : ∀ c ∈ gap, isBlank c = true) (hclass : classHeader? (mask false header) = some h)
    (hschema : isSchemaClass (String.ofList h.name) (some (String.ofList h.supertype)) = true)
    (hname : ∀ c ∈ name, isWord c = true) (hhead : ∃ c ∈ name.head?, c.isAlpha = true ∨ c = '_')
    (origin : Option String) :
    DocumentedAs (documented t.raw gap header) origin h [] ∧
    DocumentedAs (documented t.literal.text gap header) origin h t.chars ∧
    (∃ isOutdated : Bool, (isOutdated = true ↔ ∃ f : Flag, f.IsIn t.chars) ∧
      parseEntries (entryWith name t.raw) =
        .ok [{ name := String.ofList name, schemaValue := "", isOutdated := isOutdated }]) ∧
    parseEntries (entryWith name t.literal.text) =
      .ok [{ name := String.ofList name, schemaValue := String.ofList t.chars }] := by
  have hdocumented : ∀ {literal doc : List Char}, IsLiteral literal → IsList literal →
      KotlinSchema.Tag.doc? [String.ofList (tagWith literal)] = some (String.ofList doc) →
      DocumentedAs (documented literal gap header) origin h doc := by
    intro literal doc hliteral hlist hdoc
    obtain ⟨d, hd, hdname, hoffset, htags⟩ :=
      exists_annotated hliteral hlist hgap hclass hschema origin
    exact ⟨d, hd, hdname, hoffset, htags ▸ hdoc⟩
  refine ⟨hdocumented t.isLiteral_raw (isList_raw t) (doc?_raw t),
    hdocumented t.literal.isLiteral (isList_text t.literal) (doc?_text t.literal), ?_, ?_⟩
  · have hgroup : groupEnd? (fun nesting => nesting == .outer) .outer false
        (t.literal.text ++ Literal.empty.text ++ [')']) = some [] := by
      rw [List.append_assoc, groupEnd?_text rfl, groupEnd?_text rfl]
      rfl
    obtain ⟨e, harguments, hentries⟩ :=
      parseEntries_entryWith hname hhead t.isLiteral_raw Literal.empty t.raw_eq hgroup
    refine ⟨e.isOutdated, ?_, hentries⟩
    have hquotes : ∀ n, ∀ c ∈ List.replicate n '"', c = '"' :=
      fun _ _ hc => List.eq_of_mem_replicate hc
    have htext : e.arguments =
        List.replicate 1 '"' ++ (t.chars ++ List.replicate 3 '"') := by
      rw [harguments]
      simp [Literal.text, Literal.empty, PlainText.literal]
    rw [isOutdated_iff, htext]
    exact exists_isIn_quoted (hquotes 1) (hquotes 3)
  · obtain ⟨e, harguments, hentries⟩ :=
      parseEntries_entryWith hname hhead t.literal.isLiteral t.literal (List.append_nil _).symm rfl
    have hfresh : e.isOutdated = false := by
      rw [EntryText.isOutdated, harguments]
      rfl
    rw [hentries, hfresh]
    rfl

def flagText : PlainText := ⟨"outdated = true".toList, List.all_eq_true.1 rfl⟩

def moduleHeading : List Char := "class Module : Base() \x7b".toList

theorem raw_literals_read_empty_flagText :
    ∃ h : Header, classHeader? (mask false moduleHeading) = some h ∧
      isSchemaClass (String.ofList h.name) (some (String.ofList h.supertype)) = true ∧
      DocumentedAs "@SchemaDoc(\"\"\"outdated = true\"\"\")\nclass Module : Base() \x7b".toList
        none h [] ∧
      DocumentedAs "@SchemaDoc(\"outdated = true\")\nclass Module : Base() \x7b".toList
        none h "outdated = true".toList ∧
      parseEntries "A(\"\"\"outdated = true\"\"\")".toList =
        .ok [{ name := "A", schemaValue := "", isOutdated := true }] ∧
      parseEntries "A(\"outdated = true\")".toList =
        .ok [{ name := "A", schemaValue := "outdated = true" }] := by
  obtain ⟨h, hclass⟩ := Option.isSome_iff_exists.1
    (show (classHeader? (mask false moduleHeading)).isSome = true by decide +kernel)
  have hschema : (classHeader? (mask false moduleHeading)).all (fun h =>
      isSchemaClass (String.ofList h.name) (some (String.ofList h.supertype))) = true := by
    decide +kernel
  rw [hclass] at hschema
  have hgap : ∀ c ∈ ['\n'], isBlank c = true := List.all_eq_true.1 rfl
  have hname : ∀ c ∈ ['A'], isWord c = true := List.all_eq_true.1 rfl
  obtain ⟨hraw, hliteral, ⟨isOutdated, hflag, hentry⟩, hordinary⟩ :=
    raw_literals_read_empty flagText hgap hclass hschema hname ⟨'A', rfl, by decide⟩ none
  obtain rfl : isOutdated = true :=
    hflag.2 ⟨⟨[], [' '], [' '], []⟩, rfl, List.all_eq_true.1 rfl, List.all_eq_true.1 rfl, by simp,
      by simp⟩
  exact ⟨h, hclass, hschema, hraw, hliteral, hentry, hordinary⟩

/-- The raw literal of a letter and the ordinary one. -/
theorem parseEntries_rawLetter :
    parseEntries "A(\"\"\"a\"\"\")".toList = .ok [{ name := "A", schemaValue := "" }] ∧
    parseEntries "A(\"a\")".toList = .ok [{ name := "A", schemaValue := "a" }] ∧
    KotlinSchema.Tag.doc? ["SchemaDoc(\"\"\"a\"\"\")"] = some "" ∧
    KotlinSchema.Tag.doc? ["SchemaDoc(\"a\")"] = some "a" := by decide +kernel

end KotlinSchema.Canonical
