import KotlinSchema.Proofs.Text.Trimming
import KotlinSchema.Schema.Title

/-! What titles made of documentation texts look like. Links, parentheses, blanks and periods are
removed one kind after the other and each kind once. -/

namespace KotlinSchema.Schema
open Text

def linkText : List Char := "[Read more]".toList

/-- The text that is left when the links are cut out of another one from left to right, each with
the target in parentheses behind it. -/
inductive Unlinked : List Char → List Char → Prop where
  | nil : Unlinked [] []
  | char {c : Char} {cs text : List Char} :
    ¬linkText <+: c :: cs → Unlinked cs text → Unlinked (c :: cs) (c :: text)
  | target {target rest text : List Char} :
    ')' ∉ target → Unlinked rest text → Unlinked (linkText ++ '(' :: (target ++ ')' :: rest)) text
  | link {rest text : List Char} :
    (∀ target after, ')' ∉ target → rest ≠ '(' :: (target ++ ')' :: after)) →
    Unlinked rest text → Unlinked (linkText ++ rest) text

section Links
variable {cs rest text : List Char}

theorem targetEnd?_eq_some_iff : targetEnd? cs = some rest ↔
    ∃ target, ')' ∉ target ∧ cs = '(' :: (target ++ ')' :: rest) := by
  constructor
  · intro h
    rw [targetEnd?.eq_def] at h
    split at h
    · rename_i inner
      have hinner := List.takeWhile_append_dropWhile (p := (· != ')')) (l := inner)
      split at h
      · rename_i d after hdrop
        obtain rfl := Option.some.inj h
        obtain rfl : d = ')' := by
          simpa [hdrop] using List.head?_dropWhile_not (· != ')') inner
        refine ⟨inner.takeWhile (· != ')'), fun hmem => ?_, by rw [← hdrop, hinner]⟩
        simpa using List.mem_takeWhile_imp hmem
      · simp at h
    · simp at h
  · rintro ⟨target, htarget, rfl⟩
    have hclass : ∀ c ∈ target, (c != ')') = true := by
      intro c hc
      rw [bne_iff_ne]
      rintro rfl
      exact htarget hc
    have hdrop : (target ++ ')' :: rest).dropWhile (· != ')') = ')' :: rest := by
      rw [List.dropWhile_append_of_pos hclass]
      rfl
    rw [targetEnd?, hdrop]

theorem targetEnd?_eq_none_iff : targetEnd? cs = none ↔
    ∀ target after, ')' ∉ target → cs ≠ '(' :: (target ++ ')' :: after) := by
  rw [Option.eq_none_iff_forall_ne_some]
  simp only [ne_eq, targetEnd?_eq_some_iff, not_exists, not_and]
  exact forall_comm

theorem linkEnd?_append (rest : List Char) :
    linkEnd? (linkText ++ rest) = some ((targetEnd? rest).getD rest) := by
  have hafter : after? "[Read more]".toList (linkText ++ rest) = some rest :=
    after?_append linkText rest
  exact congrArg (Option.map fun rest => (targetEnd? rest).getD rest) hafter

theorem linkEnd?_eq_none (h : ¬linkText <+: cs) : linkEnd? cs = none := by
  rw [linkEnd?, Option.map_eq_none_iff, Option.eq_none_iff_forall_ne_some]
  intro rest hrest
  exact h ⟨rest, (after?_eq_some hrest).symm⟩

theorem removeFrom_length (a b : List Char) :
    removeFrom linkEnd? a.length (a ++ b) = removeFrom linkEnd? 0 b := by
  induction a with
  | nil => rfl
  | cons c a ih => rw [List.length_cons, List.cons_append, removeFrom, ih]

theorem removeFrom_piece {c : Char} {a b : List Char} (h : linkEnd? (c :: (a ++ b)) = some b) :
    removeFrom linkEnd? 0 (c :: (a ++ b)) = removeFrom linkEnd? 0 b := by
  rw [removeFrom, h]
  dsimp only
  rw [List.length_append, Nat.add_sub_cancel, removeFrom_length]

theorem removeAll_link (rest : List Char) :
    removeAll linkEnd? (linkText ++ rest) = removeAll linkEnd? ((targetEnd? rest).getD rest) := by
  obtain ⟨target, htarget⟩ : (targetEnd? rest).getD rest <:+ rest := by
    cases hend : targetEnd? rest with
    | none => exact List.suffix_refl _
    | some after =>
      obtain ⟨target, -, rfl⟩ := targetEnd?_eq_some_iff.1 hend
      exact ⟨'(' :: (target ++ [')']), by simp⟩
  have hsplit : linkText ++ rest =
      '[' :: ("Read more]".toList ++ target ++ (targetEnd? rest).getD rest) := by
    rw [List.append_assoc, htarget]
    rfl
  rw [hsplit]
  refine removeFrom_piece ?_
  rw [← hsplit, linkEnd?_append]

theorem removeAll_char {c : Char} (h : ¬linkText <+: c :: cs) :
    removeAll linkEnd? (c :: cs) = c :: removeAll linkEnd? cs := by
  rw [removeAll, removeFrom, linkEnd?_eq_none h, removeAll]

theorem unlinked_removeAll (cs : List Char) : Unlinked cs (removeAll linkEnd? cs) := by
  -- On the length, since a link is cut out as a whole.
  induction hn : cs.length using Nat.strongRecOn generalizing cs with
  | _ n ih =>
    cases cs with
    | nil => exact .nil
    | cons c cs =>
      by_cases hlink : linkText <+: c :: cs
      · obtain ⟨rest, hrest⟩ := hlink
        have hlength : linkText.length + rest.length = n := by
          rw [← hn, ← hrest, List.length_append]
        have hpos : 0 < linkText.length := by decide
        rw [← hrest, removeAll_link]
        cases hend : targetEnd? rest with
        | none =>
          exact .link (targetEnd?_eq_none_iff.1 hend) (ih rest.length (by omega) rest rfl)
        | some after =>
          obtain ⟨target, htarget, rfl⟩ := targetEnd?_eq_some_iff.1 hend
          refine .target htarget (ih after.length ?_ after rfl)
          simp only [List.length_cons, List.length_append] at hlength
          omega
      · rw [removeAll_char hlink]
        exact .char hlink (ih cs.length (by simp [← hn]) cs rfl)

theorem removeAll_eq_iff : removeAll linkEnd? cs = text ↔ Unlinked cs text := by
  constructor
  · rintro rfl
    exact unlinked_removeAll cs
  · intro h
    induction h with
    | nil => rfl
    | char hlink _ ih => rw [removeAll_char hlink, ih]
    | target htarget _ ih =>
      rw [removeAll_link, targetEnd?_eq_some_iff.2 ⟨_, htarget, rfl⟩, Option.getD_some, ih]
    | link htarget _ ih =>
      rw [removeAll_link, targetEnd?_eq_none_iff.2 htarget, Option.getD_none, ih]

theorem Unlinked.sublist (h : Unlinked cs text) : text.Sublist cs := by
  induction h with
  | nil => exact .slnil
  | char _ _ ih => exact ih.cons_cons _
  | @target target rest _ _ _ ih =>
    have hsuffix : rest <:+ linkText ++ '(' :: (target ++ ')' :: rest) :=
      ⟨linkText ++ '(' :: (target ++ [')']), by simp⟩
    exact ih.trans hsuffix.sublist
  | link _ _ ih => exact ih.trans (List.suffix_append _ _).sublist

theorem Unlinked.not_infix (h : Unlinked cs text) (hlength : cs.length ≤ text.length) :
    ¬linkText <:+: cs := by
  have hpos : 0 < linkText.length := by decide
  induction h with
  | nil => decide
  | char hlink _ ih =>
    rw [List.infix_cons_iff, not_or]
    exact ⟨hlink, ih (by simpa using hlength)⟩
  | target _ h _ =>
    have hrest := h.sublist.length_le
    simp only [List.length_append, List.length_cons] at hlength
    omega
  | link _ h _ =>
    have hrest := h.sublist.length_le
    simp only [List.length_append] at hlength
    omega

theorem unlinked_self (h : ¬linkText <:+: cs) : Unlinked cs cs := by
  induction cs with
  | nil => exact .nil
  | cons c cs ih =>
    rw [List.infix_cons_iff, not_or] at h
    exact .char h.1 (ih h.2)

end Links

def withoutParens (text : List Char) : List Char := text.filter fun c => c != '(' && c != ')'

/-- Periods end a text, blanks behind them apart; a blank stands before them, and before that
something else than blanks. -/
def EndsInGap (text : List Char) : Prop :=
  ∃ start gap periods blanks, text = start ++ gap :: (periods ++ blanks) ∧
    (∃ c ∈ start, isBlank c = false) ∧ isBlank gap = true ∧ periods ≠ [] ∧
    (∀ c ∈ periods, c = '.') ∧ ∀ c ∈ blanks, isBlank c = true

section Ends
variable {bare title : List Char}

theorem not_isBlank_of_head?_title (h : dropTrailing (· == '.') (trim bare) = title) :
    ∀ c ∈ title.head?, isBlank c = false := by
  obtain ⟨-, periods, -, htrim⟩ := dropTrailing_eq_iff.1 h
  intro c hc
  refine (trim_eq_iff.1 htrim).1 c ?_
  exact List.mem_head?_append_of_mem_head? hc

theorem getLast?_title_ne (h : dropTrailing (· == '.') (trim bare) = title) :
    title.getLast? ≠ some '.' := by
  intro hlast
  simpa using (dropTrailing_eq_iff.1 h).1 '.' hlast

theorem infix_title_iff (h : dropTrailing (· == '.') (trim bare) = title) :
    linkText <:+: title ↔ linkText <:+: bare := by
  have hhead : linkText.head? = some '[' := rfl
  have hlast : linkText.getLast? = some ']' := rfl
  rw [← h, infix_dropTrailing_iff hlast rfl, infix_trim_iff hhead rfl hlast rfl]

theorem isBlank_getLast?_title_iff (h : dropTrailing (· == '.') (trim bare) = title) :
    (∃ c ∈ title.getLast?, isBlank c = true) ↔ EndsInGap bare := by
  constructor
  · rintro ⟨gap, hgap, hblank⟩
    obtain ⟨-, periods, hperiods, htrim⟩ := dropTrailing_eq_iff.1 h
    obtain ⟨hhead, hlast, left, right, hleft, hright, hbare⟩ := trim_eq_iff.1 htrim
    obtain ⟨start, rfl⟩ := List.getLast?_eq_some_iff.1 hgap
    refine ⟨left ++ start, gap, periods, right, by simp [hbare], ?_, hblank, ?_,
      by simpa using hperiods, hright⟩
    · cases start with
      | nil => simp [hblank] at hhead
      | cons c start => exact ⟨c, by simp, hhead c rfl⟩
    -- Without periods, the blank would have been trimmed.
    · rintro rfl
      simp [hblank] at hlast
  · rintro ⟨start, gap, periods, blanks, rfl, ⟨c, hc, hnot⟩, hgap, hne, hperiods, hblanks⟩
    obtain ⟨left, hleft, hstart⟩ := exists_blanks start
    have hsolid : skipBlanks start ≠ [] := by
      intro hnil
      simp [List.dropWhile_eq_nil_iff.1 hnil c hc] at hnot
    have hdot : isBlank '.' = false := rfl
    have hlast : ∀ c ∈ (skipBlanks start ++ gap :: periods).getLast?, isBlank c = false := by
      rw [List.append_cons, List.getLast?_append_of_ne_nil _ hne]
      intro c hc
      rw [hperiods c (List.mem_of_getLast? hc), hdot]
    have htrim : trim (start ++ gap :: (periods ++ blanks)) =
        skipBlanks start ++ gap :: periods := by
      refine trim_eq_iff.2 ⟨?_, hlast, left, blanks, hleft, hblanks, ?_⟩
      · rw [List.head?_append_of_ne_nil _ hsolid]
        exact not_isBlank_skipBlanks start
      · nth_rewrite 1 [hstart]
        simp
    have htitle : title = skipBlanks start ++ [gap] := by
      rw [← h, htrim]
      refine dropTrailing_eq_iff.2 ⟨?_, periods, by simpa using hperiods, by simp⟩
      have hperiod : gap ≠ '.' := by
        rintro rfl
        simp [hdot] at hgap
      simpa using hperiod
    exact ⟨gap, by simp [htitle], hgap⟩

end Ends

/-- What is expected of a title. -/
structure IsTitle (title : List Char) : Prop where
  no_paren : ∀ c ∈ title, c ≠ '(' ∧ c ≠ ')'
  no_link : ¬linkText <:+: title
  no_blank_before : ∀ c ∈ title.head?, isBlank c = false
  no_blank_after : ∀ c ∈ title.getLast?, isBlank c = false
  no_period_after : title.getLast? ≠ some '.'

section Titles
variable {doc : String} {text : List Char}

theorem toList_shortTitle (h : Unlinked doc.toList text) :
    (shortTitle doc).toList = dropTrailing (· == '.') (trim (withoutParens text)) := by
  rw [shortTitle, removeAll_eq_iff.2 h, String.toList_ofList, withoutParens]

theorem no_paren_shortTitle (doc : String) :
    ∀ c ∈ (shortTitle doc).toList, c ≠ '(' ∧ c ≠ ')' := by
  intro c hc
  rw [toList_shortTitle (unlinked_removeAll _)] at hc
  have hmem := (trim_sublist _).subset ((dropTrailing_sublist _ _).subset hc)
  simpa [withoutParens] using (List.mem_filter.1 hmem).2

theorem shortTitle_eq_self_iff : shortTitle doc = doc ↔ IsTitle doc.toList := by
  constructor
  · intro h
    have hlinks := unlinked_removeAll doc.toList
    have htitle := toList_shortTitle hlinks
    have hparens := no_paren_shortTitle doc
    rw [h] at htitle hparens
    -- No step makes the text longer, so none makes it shorter.
    have hfilter : (withoutParens (removeAll linkEnd? doc.toList)).Sublist _ := List.filter_sublist
    have htrim := trim_sublist (withoutParens (removeAll linkEnd? doc.toList))
    have hdrop := dropTrailing_sublist (· == '.')
      (trim (withoutParens (removeAll linkEnd? doc.toList)))
    rw [← htitle] at hdrop
    have htrimmed := (htrim.trans (hfilter.trans hlinks.sublist)).antisymm hdrop
    have hlength := (hdrop.trans (htrim.trans hfilter)).length_le
    exact {
      no_paren := hparens
      no_link := hlinks.not_infix hlength
      no_blank_before := not_isBlank_of_head?_title htitle.symm
      no_blank_after := (trim_eq_iff.1 htrimmed).2.1
      no_period_after := getLast?_title_ne htitle.symm }
  · intro h
    have hparens : withoutParens doc.toList = doc.toList :=
      List.filter_eq_self.2 fun c hc => by simpa using h.no_paren c hc
    rw [← String.toList_inj, toList_shortTitle (unlinked_self h.no_link), hparens,
      trim_eq_self h.no_blank_before h.no_blank_after]
    refine dropTrailing_eq_iff.2 ⟨fun c hc => ?_, [], by simp, by simp⟩
    rw [beq_eq_false_iff_ne]
    rintro rfl
    exact h.no_period_after hc

theorem isTitle_shortTitle_iff (doc : String) : IsTitle (shortTitle doc).toList ↔
    ¬linkText <:+: (shortTitle doc).toList ∧
      ¬∃ c ∈ (shortTitle doc).toList.getLast?, isBlank c = true := by
  have htitle := (toList_shortTitle (unlinked_removeAll doc.toList)).symm
  constructor
  · intro h
    refine ⟨h.no_link, ?_⟩
    rintro ⟨c, hc, hblank⟩
    simp [h.no_blank_after c hc] at hblank
  · rintro ⟨hlink, hblank⟩
    exact {
      no_paren := no_paren_shortTitle doc
      no_link := hlink
      no_blank_before := not_isBlank_of_head?_title htitle
      no_blank_after := fun c hc => by_contra fun h => hblank ⟨c, hc, by simpa using h⟩
      no_period_after := getLast?_title_ne htitle }

/-- A title made of a documentation text has no parentheses, no blank before it and no period after
it. A link is left in it just where one is left by the steps that remove links and parentheses, and
a blank is left after it just where one stood before the periods; else it is its own title. -/
theorem shortTitle_shape (doc : String) : ∃ text, Unlinked doc.toList text ∧
    (∀ c ∈ (shortTitle doc).toList, c ≠ '(' ∧ c ≠ ')') ∧
    (∀ c ∈ (shortTitle doc).toList.head?, isBlank c = false) ∧
    (shortTitle doc).toList.getLast? ≠ some '.' ∧
    (linkText <:+: (shortTitle doc).toList ↔ linkText <:+: withoutParens text) ∧
    ((∃ c ∈ (shortTitle doc).toList.getLast?, isBlank c = true) ↔
      EndsInGap (withoutParens text)) ∧
    (shortTitle (shortTitle doc) = shortTitle doc ↔
      ¬linkText <:+: withoutParens text ∧ ¬EndsInGap (withoutParens text)) := by
  have hlinks := unlinked_removeAll doc.toList
  have htitle := (toList_shortTitle hlinks).symm
  refine ⟨_, hlinks, no_paren_shortTitle doc, not_isBlank_of_head?_title htitle,
    getLast?_title_ne htitle, infix_title_iff htitle, isBlank_getLast?_title_iff htitle, ?_⟩
  rw [shortTitle_eq_self_iff, isTitle_shortTitle_iff, infix_title_iff htitle,
    isBlank_getLast?_title_iff htitle]

/-- Blanks are trimmed before the periods are, and links are removed only once. -/
theorem shortTitle_leftovers :
    (shortTitle "See this ." = "See this " ∧ ¬IsTitle "See this ".toList ∧
      shortTitle "See this " = "See this") ∧
    (shortTitle "[Read [Read more]more]" = "[Read more]" ∧ ¬IsTitle "[Read more]".toList ∧
      shortTitle "[Read more]" = "") := by
  have hgap : shortTitle "See this ." = "See this " := by decide +kernel
  have hagain : shortTitle "See this " = "See this" := by decide +kernel
  have hlink : shortTitle "[Read [Read more]more]" = "[Read more]" := by decide +kernel
  have hempty : shortTitle "[Read more]" = "" := by decide +kernel
  refine ⟨⟨hgap, fun h => ?_, hagain⟩, hlink, fun h => ?_, hempty⟩
  · rw [← shortTitle_eq_self_iff, hagain] at h
    exact absurd h (by decide)
  · rw [← shortTitle_eq_self_iff, hempty] at h
    exact absurd h (by decide)

end Titles

end KotlinSchema.Schema
