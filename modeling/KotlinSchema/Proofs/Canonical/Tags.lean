import KotlinSchema.Proofs.Canonical.Masks
import KotlinSchema.Proofs.Source.Annotations
import KotlinSchema.Proofs.Source.Passing

/-! How written annotations are read: their literals and argument lists, the run of those that stand
in a row, and their tags. -/

namespace KotlinSchema.Canonical
open Text Source

section Literals
variable {content value rest : List Char}

theorem literalEnd?_of_spells (h : Spells content value) (rest : List Char) :
    literalEnd? (content ++ '"' :: rest) = some rest :=
  literalEnd?_eq_some_iff.2 ⟨content, rfl, quotable_of_spells h, newline_not_mem_of_spells h⟩

theorem literal?_text (l : Literal) (rest : List Char) :
    literal? (l.text ++ rest) = some (l.text, rest) := by
  have htext : l.text ++ rest = '"' :: (l.content ++ '"' :: rest) := by simp [Literal.text]
  have hlength : (l.content ++ '"' :: rest).length - rest.length = l.content.length + 1 := by
    simp only [List.length_append, List.length_cons]
    omega
  rw [htext, literal?, literalEnd?_of_spells l.spells, Option.map_some, hlength,
    List.take_length_add_append]
  simp [Literal.text]

theorem unescape_of_spells (h : Spells content value) : unescape content = value := by
  induction h with
  | nil => rfl
  | plain _ hslash _ _ ih => simp [unescape, hslash, ih]
  | escaped hline _ ih => simp [unescape, hline, ih]

theorem literalText_text (l : Literal) : literalText l.text = l.value := by
  simp [literalText, Literal.text, unescape_of_spells l.spells]

end Literals

section Groups
variable {literals : Nesting → Bool} {a rest : List Char}

theorem groupEnd?_of_spells {content value : List Char} (h : Spells content value)
    (nesting : Nesting) (rest : List Char) :
    groupEnd? literals nesting true (content ++ '"' :: rest) =
      groupEnd? literals nesting false rest := by
  induction h with
  | nil => simp [groupEnd?]
  | plain hquote hslash hline _ ih => simp [groupEnd?, hquote, hslash, hline, ih]
  | escaped hline _ ih => simp [groupEnd?, hline, ih]

def isArgumentChar (c : Char) : Bool := c != '"' && c != '(' && c != ')'

theorem groupEnd?_of_isArgumentChar (h : ∀ c ∈ a, isArgumentChar c = true) (rest : List Char) :
    groupEnd? literals .outer false (a ++ rest) = groupEnd? literals .outer false rest := by
  refine groupEnd?_of_plain (fun c hc => ?_) rest
  have hchar := h c hc
  simp only [isArgumentChar, Bool.and_eq_true, bne_iff_ne] at hchar
  exact ⟨hchar.1.2, hchar.2, fun _ => hchar.1.1⟩

theorem groupEnd?_text (h : literals .outer = true) (l : Literal) (rest : List Char) :
    groupEnd? literals .outer false (l.text ++ rest) = groupEnd? literals .outer false rest := by
  have htext : l.text ++ rest = '"' :: (l.content ++ '"' :: rest) := by simp [Literal.text]
  rw [htext, groupEnd?, if_pos ⟨rfl, h⟩, groupEnd?_of_spells l.spells]

/-- Literals are shown so that argument lists are read past them. -/
def Passable (f : Literal → List Char) : Prop :=
  ∀ l rest, groupEnd? (fun _ => true) .outer false (f l ++ rest) =
    groupEnd? (fun _ => true) .outer false rest

theorem passable_text : Passable Literal.text := fun l rest => groupEnd?_text rfl l rest

theorem passable_blanked : Passable Literal.blanked := by
  refine fun l rest => groupEnd?_of_isArgumentChar (fun c hc => ?_) rest
  obtain rfl := List.eq_of_mem_replicate hc
  rfl

end Groups

/-- A text that ends the annotations before it, and is no part of the last one. -/
def Stops (rest : List Char) : Prop :=
  ∀ c ∈ rest.head?, isBlank c = false ∧ c ≠ '(' ∧ c ≠ '@'

theorem stops_of_isWord {w : List Char} (hne : w ≠ []) (hw : ∀ c ∈ w, isWord c = true)
    (rest : List Char) : Stops (w ++ rest) := by
  obtain ⟨x, w, rfl⟩ := List.exists_cons_of_ne_nil hne
  have hx := hw x List.mem_cons_self
  rintro c ⟨⟩
  refine ⟨not_isBlank_of_isWord hx, ?_, ?_⟩ <;> rintro rfl <;> exact absurd hx (by decide)

section Runs
variable {f : Literal → List Char} {cs next rest : List Char}

theorem consecutive_of_some {piece? : List Char → Option (List Char)} (ha : Advances piece?)
    (h : piece? cs = some next) :
    consecutive piece? ha cs =
      (cs :: (consecutive piece? ha next).1, (consecutive piece? ha next).2) := by
  rw [consecutive]
  split
  · simp_all
  · rename_i rest hrest
    obtain rfl : rest = next := by simpa [hrest] using h
    rfl

theorem consecutive_of_none {piece? : List Char → Option (List Char)} (ha : Advances piece?)
    (h : piece? cs = none) : consecutive piece? ha cs = ([], cs) := by
  rw [consecutive]
  split
  · rfl
  · simp_all

theorem annotationRun_of_head (h : cs.head? ≠ some '@') : annotationRun cs = ([], cs) :=
  consecutive_of_none _ (by rw [annotationAndBlanksEnd?, annotationEnd?_of_head h, Option.map_none])

theorem annotationRun_of_not_mem {a c : List Char} (hat : '@' ∉ a) (hc : c <:+ a) (hne : c ≠ [])
    (rest : List Char) : annotationRun (c ++ rest) = ([], c ++ rest) := by
  refine annotationRun_of_head fun hhead => ?_
  rw [List.head?_append_of_ne_nil _ hne] at hhead
  exact hat (hc.subset (List.mem_of_mem_head? hhead))

theorem annotationEnd?_tagLine (hf : Passable f) (t : TagLine)
    (hrest : ∀ c ∈ rest.head?, isBlank c = false ∧ c ≠ '(') :
    annotationEnd? (t.print f ++ rest) = some (t.gap.chars ++ rest) := by
  obtain ⟨tag, gap⟩ := t
  cases tag with
  | bare name h =>
    have hgap : ∀ c ∈ (gap.chars ++ rest).head?, isWord c = false := by
      obtain ⟨c, chars, hchars⟩ := List.exists_cons_of_ne_nil gap.ne_nil
      simpa [hchars] using not_isWord_of_isBlank (gap.isBlank c (by simp [hchars]))
    have hnone : argumentListEnd? (gap.chars ++ rest) = none := by
      rw [argumentListEnd?, skipBlanks_append gap.isBlank,
        skipBlanks_eq_self fun c hc => (hrest c hc).1]
      split
      · exact absurd rfl (hrest '(' (by simp)).2
      · rfl
    have htext : TagLine.print f ⟨.bare name h, gap⟩ ++ rest =
        '@' :: (name.chars ++ (gap.chars ++ rest)) := by
      rw [TagLine.print, List.append_assoc, List.append_assoc]
      rfl
    rw [htext, annotationEnd?_of_word name.ne_nil name.isWord hgap, hnone, Option.getD_none]
  | doc l =>
    have hlist : argumentListEnd? ('(' :: (f l ++ ([')'] ++ gap.chars ++ rest))) =
        some (gap.chars ++ rest) := by
      rw [argumentListEnd?, skipBlanks_cons (by rfl)]
      simp only [hf l]
      rfl
    have htext : TagLine.print f ⟨.doc l, gap⟩ ++ rest =
        '@' :: ("SchemaDoc".toList ++ '(' :: (f l ++ ([')'] ++ gap.chars ++ rest))) := by
      rw [print_doc]
      simp
    rw [htext, annotationEnd?_of_word (by decide) (List.all_eq_true.1 rfl),
      hlist, Option.getD_some]
    rintro c ⟨⟩
    rfl

theorem head?_printTags (hrest : Stops rest) (ts : List TagLine) :
    ∀ c ∈ (printTags f ts ++ rest).head?, isBlank c = false ∧ c ≠ '(' := by
  cases ts with
  | nil => exact fun c hc => ⟨(hrest c hc).1, (hrest c hc).2.1⟩
  | cons t ts =>
    rintro c ⟨⟩
    exact ⟨rfl, by decide⟩

theorem annotationRun_cons (hf : Passable f) (hrest : Stops rest) (t : TagLine)
    (ts : List TagLine) :
    (annotationRun (printTags f (t :: ts) ++ rest)).2 =
      (annotationRun (printTags f ts ++ rest)).2 := by
  have hnext := head?_printTags (f := f) hrest ts
  have hend : annotationAndBlanksEnd? (printTags f (t :: ts) ++ rest) =
      some (printTags f ts ++ rest) := by
    rw [printTags, List.flatMap_cons, List.append_assoc, annotationAndBlanksEnd?, ← printTags,
      annotationEnd?_tagLine hf t hnext, Option.map_some, skipBlanks_append t.gap.isBlank,
      skipBlanks_eq_self fun c hc => (hnext c hc).1]
  rw [annotationRun, consecutive_of_some _ hend]
  rfl

theorem annotationRun_printTags (hf : Passable f) (hrest : Stops rest) (ts : List TagLine) :
    (annotationRun (printTags f ts ++ rest)).2 = rest := by
  induction ts with
  | nil => rw [printTags, List.flatMap_nil, List.nil_append, annotationRun_of_head fun h =>
      (hrest '@' h).2.2 rfl]
  | cons t ts ih => rw [annotationRun_cons hf hrest, ih]

theorem isBlank_getLast?_printTags (f : Literal → List Char) (ts : List TagLine) :
    ∀ c ∈ (printTags f ts).getLast?, isBlank c = true := by
  rcases List.eq_nil_or_concat ts with rfl | ⟨ts, t, rfl⟩
  · simp [printTags]
  · intro c hc
    rw [printTags, List.concat_eq_append, List.flatMap_append, List.flatMap_singleton, TagLine.print,
      ← List.append_assoc, List.getLast?_append_of_ne_nil _ t.gap.ne_nil] at hc
    exact t.gap.isBlank c (List.mem_of_getLast? hc)

end Runs

section Tags

theorem regroup_call {a w x : List Char} (h : a = w ++ ['(']) :
    a ++ x ++ [')'] = w ++ '(' :: (x ++ [')']) := by
  subst h
  simp

theorem print_docTag (l : Literal) : (Tag.doc l).print Literal.text =
    KotlinSchema.Tag.docName.toList ++ '(' :: (l.text ++ [')']) := regroup_call rfl

theorem isTag_print (t : Tag) : IsTag (t.print Literal.text) := by
  cases t with
  | bare name _ => exact .bare name.ne_nil name.isWord
  | doc l =>
    have hlist : ∀ rest,
        groupEnd? (fun _ => true) .outer false (l.text ++ ')' :: rest) = some rest := by
      intro rest
      rw [passable_text l]
      rfl
    have htag : IsTag (KotlinSchema.Tag.docName.toList ++ ([] ++ '(' :: (l.text ++ [')']))) :=
      .applied (by decide) (List.all_eq_true.1 rfl) (by simp) hlist
    rw [print_docTag]
    exact htag

/-- The tags of annotations are read as they are written. -/
theorem parseAnnotations_printTags {ts : List TagLine}
    (hnodup : (ts.map (·.tag.print Literal.text)).Nodup) :
    parseAnnotations (printTags Literal.text ts) =
      ts.map fun t => String.ofList (t.tag.print Literal.text) := by
  let written (t : TagLine) : String × List Char :=
    (String.ofList (t.tag.print Literal.text), t.gap.chars)
  have htext : printTags Literal.text ts = printAnnotations (ts.map written) := by
    simp [printTags, printAnnotations, TagLine.print, written, List.flatMap_map]
  have htags : ∀ t ∈ ts.map written, IsTag t.1.toList := by
    simpa [written] using fun (t : TagLine) _ => isTag_print t.tag
  have hgaps : ∀ t ∈ ts.map written, ∀ c ∈ t.2, isBlank c = true := by
    simpa [written] using fun (t : TagLine) _ => t.gap.isBlank
  have hstrings : (ts.map fun t => String.ofList (t.tag.print Literal.text)).Nodup := by
    have h := hnodup.map fun _ _ h => String.ofList_injective h
    rwa [List.map_map] at h
  rw [htext, parseAnnotations_print htags hgaps, List.map_map]
  exact eraseDups_of_nodup hstrings

end Tags

end KotlinSchema.Canonical

namespace KotlinSchema.Tag
open Text Source Canonical

theorem ne_paren_of_isWord {w : List Char} (hw : ∀ c ∈ w, isWord c = true) :
    ∀ c ∈ w, (c != '(') = true := by
  intro c hc
  rw [bne_iff_ne]
  rintro rfl
  exact absurd (hw '(' hc) (by decide)

theorem trim_of_isWord {w : List Char} (hw : ∀ c ∈ w, isWord c = true) : trim w = w :=
  trim_eq_self (fun c hc => not_isBlank_of_isWord (hw c (List.mem_of_mem_head? hc)))
    fun c hc => not_isBlank_of_isWord (hw c (List.mem_of_getLast? hc))

theorem name_of_isWord {w : List Char} (hw : ∀ c ∈ w, isWord c = true) :
    name (String.ofList w) = String.ofList w := by
  rw [name, String.toList_ofList, List.takeWhile_eq_self_iff.2 (ne_paren_of_isWord hw),
    trim_of_isWord hw]

theorem isWord_docName : ∀ c ∈ docName.toList, isWord c = true :=
  List.all_eq_true.1 rfl

section Arguments
variable {cs literal rest more : List Char}

theorem name_docTag (inner : List Char) :
    name (String.ofList (docName.toList ++ '(' :: inner)) = docName := by
  rw [name, String.toList_ofList, List.takeWhile_append_of_pos (ne_paren_of_isWord isWord_docName),
    List.takeWhile_cons_of_neg (by simp), List.append_nil, trim_of_isWord isWord_docName,
    String.ofList_toList]

theorem doc?_of_docTag {before : List String} (hbefore : ∀ t ∈ before, name t ≠ docName)
    (inner : List Char) (after : List String) :
    doc? (before ++ String.ofList (docName.toList ++ '(' :: inner) :: after) =
      (firstLiteral? inner).map fun start => String.ofList (joinedTexts start).flatten := by
  have hnone : before.find? (fun tag => name tag == docName) = none := by
    simpa using hbefore
  have hfind : find? (before ++ String.ofList (docName.toList ++ '(' :: inner) :: after) docName =
      some (String.ofList (docName.toList ++ '(' :: inner)) := by
    rw [find?, List.find?_append, hnone, Option.none_or,
      List.find?_cons_of_pos (by simpa only [beq_iff_eq] using name_docTag inner)]
  have harguments : ((docName.toList ++ '(' :: inner).dropWhile (· != '(')).drop 1 = inner := by
    rw [List.dropWhile_append_of_pos (ne_paren_of_isWord isWord_docName),
      List.dropWhile_cons_of_neg (by simp), List.drop_one, List.tail_cons]
  have hcontains : (docName.toList ++ '(' :: inner).contains '(' = true := by simp
  simp only [doc?, hfind, Option.bind_eq_bind, Option.bind_some, String.toList_ofList, hcontains,
    if_true, harguments]
  cases firstLiteral? inner <;> rfl

theorem joinedTexts_of_plus (h : literal? cs = some (literal, rest))
    (hplus : skipBlanks rest = '+' :: more) :
    joinedTexts cs = literalText literal :: joinedTexts (skipBlanks more) := by
  rw [joinedTexts]
  split
  · simp_all
  · rename_i literal' rest' h'
    obtain ⟨rfl, rfl⟩ := Prod.mk.inj (Option.some.inj (h.symm.trans h'))
    split
    · simp_all
    · rename_i hnone
      exact absurd hplus (hnone more)

theorem joinedTexts_of_end (h : literal? cs = some (literal, rest))
    (hend : (skipBlanks rest).head? ≠ some '+') : joinedTexts cs = [literalText literal] := by
  rw [joinedTexts]
  split
  · simp_all
  · rename_i literal' rest' h'
    obtain ⟨rfl, rfl⟩ := Prod.mk.inj (Option.some.inj (h.symm.trans h'))
    split
    · simp_all
    · rfl

end Arguments

theorem name_doc (l : Literal) :
    name (String.ofList ((Canonical.Tag.doc l).print Literal.text)) = docName := by
  rw [print_docTag, name_docTag]

theorem joinedTexts_text (l : Literal) : joinedTexts (l.text ++ [')']) = [l.value] := by
  have hend : (skipBlanks [')']).head? ≠ some '+' := by decide
  rw [joinedTexts_of_end (literal?_text l _) hend, literalText_text]

theorem firstLiteral?_text (l : Literal) (rest : List Char) :
    firstLiteral? (l.text ++ rest) = some (l.text ++ rest) := by
  have hsome : (literal? (l.text ++ rest)).isSome = true := by simp [literal?_text]
  have htext : l.text ++ rest = '"' :: (l.content ++ ['"'] ++ rest) := by simp [Literal.text]
  rw [htext] at hsome ⊢
  rw [firstLiteral?, if_pos hsome]

theorem doc?_of_doc (l : Literal) (tags : List String) :
    doc? (String.ofList ((Canonical.Tag.doc l).print Literal.text) :: tags) = some l.string := by
  have hnone : ∀ t ∈ ([] : List String), name t ≠ docName := by simp
  have hdoc := doc?_of_docTag hnone (l.text ++ [')']) tags
  rw [List.nil_append, firstLiteral?_text, Option.map_some, joinedTexts_text] at hdoc
  rw [print_docTag, hdoc]
  simp [Literal.string]

theorem doc?_printTags (ts : List TagLine) :
    doc? (ts.map fun t => String.ofList (t.tag.print Literal.text)) =
      ts.findSome? (·.tag.doc?) := by
  induction ts with
  | nil => rfl
  | cons t ts ih =>
    obtain ⟨tag, gap⟩ := t
    cases tag with
    | doc l => exact doc?_of_doc l _
    | bare i h =>
      have hname : (name (String.ofList i.chars) == docName) = false := by
        rw [name_of_isWord i.isWord, beq_eq_false_iff_ne]
        exact fun he => h (by rw [← he, String.toList_ofList])
      have hfind : ∀ tags, find? (String.ofList i.chars :: tags) docName = find? tags docName :=
        fun tags => List.find?_cons_of_neg (by simp [hname])
      calc doc? (String.ofList i.chars :: ts.map fun t => String.ofList (t.tag.print Literal.text))
        _ = doc? (ts.map fun t => String.ofList (t.tag.print Literal.text)) := by
          simp only [doc?, hfind]
        _ = ts.findSome? (·.tag.doc?) := ih

theorem nodup_docTags (doc : Option Literal) (gap : Gap) :
    ((docTags doc gap).map (·.tag.print Literal.text)).Nodup := by
  cases doc <;> simp [docTags]

theorem doc?_docTags (doc : Option Literal) (gap : Gap) :
    doc? (parseAnnotations (printTags Literal.text (docTags doc gap))) = doc.map (·.string) := by
  rw [parseAnnotations_printTags (nodup_docTags doc gap), doc?_printTags]
  cases doc <;> rfl

theorem find?_docTags (doc : Option Literal) (gap : Gap) :
    find? (parseAnnotations (printTags Literal.text (docTags doc gap))) orderSensitiveName = none := by
  rw [parseAnnotations_printTags (nodup_docTags doc gap)]
  cases doc with
  | none => rfl
  | some l =>
    have hname : (name (String.ofList ((Canonical.Tag.doc l).print Literal.text)) ==
        orderSensitiveName) = false := by
      rw [name_doc]
      decide +kernel
    exact List.find?_cons_of_neg (by simpa using hname)

end KotlinSchema.Tag
