import KotlinSchema.Proofs.Canonical.Tags

/-! Documentation in several literals. They are joined by plus signs, and what is read is their texts
in a row, whatever these hold; a text is written as a literal with escapes for all that cannot stand
in one. -/

namespace KotlinSchema.Canonical
open Text Source

def escaped (c : Char) : List Char :=
  if c = '\\' ∨ c = '"' then ['\\', c]
  else if c = '\n' then ['\\', 'n']
  else if c = '\r' then ['\\', 'r']
  else if c = '\t' then ['\\', 't']
  else [c]

theorem spells_escaped (s : List Char) : Spells (s.flatMap escaped) s := by
  induction s with
  | nil => exact .nil
  | cons c s ih =>
    rw [List.flatMap_cons, escaped]
    split_ifs with hself hline hreturn htab
    · rcases hself with rfl | rfl
      · exact .escaped (by decide) ih
      · exact .escaped (by decide) ih
    · subst hline
      exact .escaped (by decide) ih
    · subst hreturn
      exact .escaped (by decide) ih
    · subst htab
      exact .escaped (by decide) ih
    · obtain ⟨hslash, hquote⟩ := not_or.1 hself
      exact .plain hquote hslash hline ih

def Literal.escaping (s : List Char) : Literal := ⟨s.flatMap escaped, s, spells_escaped s⟩

/-- A text that a plus sign joins to the one before it, with the blanks around the sign. -/
structure Joined where
  before : List Char
  after : List Char
  text : List Char
  isBlank_before : ∀ c ∈ before, Text.isBlank c = true
  isBlank_after : ∀ c ∈ after, Text.isBlank c = true

def Joined.chars (j : Joined) : List Char :=
  j.before ++ '+' :: (j.after ++ (Literal.escaping j.text).text)

def joinedChars (first : List Char) (others : List Joined) : List Char :=
  (Literal.escaping first).text ++ others.flatMap (·.chars)

def docTag (first : List Char) (others : List Joined) : List Char :=
  KotlinSchema.Tag.docName.toList ++ '(' :: (joinedChars first others ++ [')'])

section Joins
variable (first : List Char) (others : List Joined)

theorem isArgumentChar_of_isBlank {c : Char} (h : isBlank c = true) : isArgumentChar c = true := by
  have hmem : c ∉ ['"', '(', ')'] := not_mem_of_class h (by decide)
  simpa [isArgumentChar, and_assoc] using hmem

theorem groupEnd?_joined (rest : List Char) :
    groupEnd? (fun _ => true) .outer false (joinedChars first others ++ ')' :: rest) =
      some rest := by
  rw [joinedChars, List.append_assoc, passable_text]
  induction others with
  | nil => simp [groupEnd?]
  | cons j js ih =>
    have hgap : ∀ c ∈ j.before ++ '+' :: j.after, isArgumentChar c = true := by
      simp only [List.forall_mem_append, List.forall_mem_cons]
      exact ⟨fun c hc => isArgumentChar_of_isBlank (j.isBlank_before c hc), rfl,
        fun c hc => isArgumentChar_of_isBlank (j.isBlank_after c hc)⟩
    have htext : (j :: js).flatMap (·.chars) ++ ')' :: rest = (j.before ++ '+' :: j.after) ++
        ((Literal.escaping j.text).text ++ (js.flatMap (·.chars) ++ ')' :: rest)) := by
      simp [Joined.chars]
    rw [htext, groupEnd?_of_isArgumentChar hgap, passable_text, ih]

theorem isTag_docTag : IsTag (docTag first others) := by
  have hblanks : ∀ c ∈ ([] : List Char), isBlank c = true := by simp
  exact .applied (by decide) KotlinSchema.Tag.isWord_docName hblanks (groupEnd?_joined first others)

theorem skipBlanks_text (l : Literal) (rest : List Char) :
    skipBlanks (l.text ++ rest) = l.text ++ rest := by
  refine skipBlanks_eq_self ?_
  rintro c ⟨⟩
  rfl

theorem joinedTexts_joined (rest : List Char) :
    KotlinSchema.Tag.joinedTexts (joinedChars first others ++ ')' :: rest) =
      first :: others.map (·.text) := by
  induction others generalizing first with
  | nil =>
    have hread : literal? (joinedChars first [] ++ ')' :: rest) =
        some ((Literal.escaping first).text, ')' :: rest) := by
      rw [joinedChars, List.flatMap_nil, List.append_nil, literal?_text]
    have hend : (skipBlanks (')' :: rest)).head? ≠ some '+' := by
      rw [skipBlanks_cons rfl]
      simp
    rw [KotlinSchema.Tag.joinedTexts_of_end hread hend, literalText_text]
    rfl
  | cons j js ih =>
    let next := joinedChars j.text js ++ ')' :: rest
    have htext : joinedChars first (j :: js) ++ ')' :: rest =
        (Literal.escaping first).text ++ (j.before ++ '+' :: (j.after ++ next)) := by
      simp [next, joinedChars, Joined.chars]
    have hplus : skipBlanks (j.before ++ '+' :: (j.after ++ next)) = '+' :: (j.after ++ next) := by
      rw [skipBlanks_append j.isBlank_before, skipBlanks_cons rfl]
    have hnext : skipBlanks (j.after ++ next) = next := by
      simp only [next, skipBlanks_append j.isBlank_after, joinedChars, List.append_assoc,
        skipBlanks_text]
    rw [htext, KotlinSchema.Tag.joinedTexts_of_plus (literal?_text _ _) hplus, hnext, ih,
      literalText_text]
    rfl

theorem firstLiteral?_joined (rest : List Char) :
    KotlinSchema.Tag.firstLiteral? (joinedChars first others ++ rest) =
      some (joinedChars first others ++ rest) := by
  rw [joinedChars, List.append_assoc, KotlinSchema.Tag.firstLiteral?_text]

end Joins

end KotlinSchema.Canonical

namespace KotlinSchema.Tag
open Text Source Canonical

/-- A text is read back from its literal. Joined literals are read as one tag, whatever the texts in
them hold, and the first such tag is read as the texts in a row. -/
theorem documentation_of_literals (first : List Char) (others : List Joined) :
    literalText (Literal.escaping first).text = first ∧
    parseAnnotations ('@' :: docTag first others) = [String.ofList (docTag first others)] ∧
    ∀ before after : List String, (∀ t ∈ before, name t ≠ docName) →
      doc? (before ++ String.ofList (docTag first others) :: after) =
        some (String.ofList (first ++ others.flatMap (·.text))) := by
  refine ⟨literalText_text _, ?_, fun before after hbefore => ?_⟩
  · have htags : ∀ t ∈ [(String.ofList (docTag first others), ([] : List Char))],
        IsTag t.1.toList := by
      simpa using isTag_docTag first others
    have hprint : printAnnotations [(String.ofList (docTag first others), [])] =
        '@' :: docTag first others := by
      simp [printAnnotations]
    rw [← hprint, parseAnnotations_print htags (by simp)]
    rfl
  · rw [docTag, doc?_of_docTag hbefore, firstLiteral?_joined, Option.map_some, joinedTexts_joined,
      List.flatten_cons, List.flatMap_def]

def quotedParts : List Joined :=
  [{ before := [], after := ['\n', ' '], text := "\") + \"@SchemaDoc(\"x\")".toList
     isBlank_before := by simp, isBlank_after := List.all_eq_true.1 rfl },
   { before := ['\t'], after := [], text := "\r\n\\".toList
     isBlank_before := List.all_eq_true.1 rfl, isBlank_after := by simp }]

theorem documentation_of_literals_quotedParts :
    (∀ t ∈ ["SchemaDocs(\"a\")"], name t ≠ docName) ∧
    doc? ["SchemaDocs(\"a\")",
      "SchemaDoc(\"\"+\n \"\\\") + \\\"@SchemaDoc(\\\"x\\\")\"\t+\"\\r\\n\\\\\")",
      "SchemaDoc(\"b\")"] = some "\") + \"@SchemaDoc(\"x\")\r\n\\" := by
  have hbefore : ∀ t ∈ ["SchemaDocs(\"a\")"], name t ≠ docName := by decide +kernel
  obtain ⟨-, -, hdoc⟩ := documentation_of_literals [] quotedParts
  exact ⟨hbefore, hdoc ["SchemaDocs(\"a\")"] ["SchemaDoc(\"b\")"] hbefore⟩

end KotlinSchema.Tag
