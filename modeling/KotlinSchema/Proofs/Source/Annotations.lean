import KotlinSchema.Proofs.FirstOccurrences
import KotlinSchema.Proofs.Source.Places
import KotlinSchema.Proofs.Text.Finding

/-! The form of tags. A tag is a word, or a word and an argument list that is read to its last
parenthesis whatever follows it; so tags are read back from a text that is put together from them. -/

namespace KotlinSchema.Source
open Text

section Lists
variable {literals : Nesting → Bool} {nesting nesting' : Nesting} {inLiteral inLiteral' : Bool}
  {cs rest : List Char}

/-- A text begins with what closes a list, and the list is closed there whatever follows it. -/
def ClosesList (literals : Nesting → Bool) (nesting : Nesting) (inLiteral : Bool)
    (cs rest : List Char) : Prop :=
  ∃ inner, cs = inner ++ ')' :: rest ∧ ∀ rest',
    groupEnd? literals nesting inLiteral (inner ++ ')' :: rest') = some rest'

theorem ClosesList.prepend (h : ClosesList literals nesting' inLiteral' cs rest) (a : List Char)
    (hstep : ∀ tail, groupEnd? literals nesting inLiteral (a ++ tail) =
      groupEnd? literals nesting' inLiteral' tail) :
    ClosesList literals nesting inLiteral (a ++ cs) rest := by
  obtain ⟨inner, rfl, hinner⟩ := h
  refine ⟨a ++ inner, (List.append_assoc ..).symm, fun rest' => ?_⟩
  rw [List.append_assoc, hstep, hinner]

theorem closesList_of_groupEnd? (h : groupEnd? literals nesting inLiteral cs = some rest) :
    ClosesList literals nesting inLiteral cs rest := by
  fun_induction groupEnd? literals nesting inLiteral cs with
  | case1 => simp at h
  | case2 => simp at h
  | case3 nesting c cs hline ih =>
    exact (ih h).prepend ['\\', c] fun tail => by simp [groupEnd?, hline]
  | case4 nesting cs _ ih => exact (ih h).prepend ['"'] fun tail => by simp [groupEnd?]
  | case5 => simp at h
  | case6 nesting c cs _ hquote hplain ih =>
    refine (ih h).prepend [c] fun tail => ?_
    obtain ⟨hline, hslash⟩ := not_or.1 hplain
    simp [groupEnd?, hquote, hline, hslash]
  | case7 c cs hquote ih => exact (ih h).prepend [c] fun tail => by simp [groupEnd?, hquote]
  | case8 cs hquote ih => exact (ih h).prepend ['('] fun tail => by simp [groupEnd?]
  | case9 cs => exact ⟨[], by simpa using h, fun rest' => by simp [groupEnd?]⟩
  | case10 c cs hquote hopen hclose ih =>
    refine (ih h).prepend [c] fun tail => ?_
    rw [List.singleton_append, groupEnd?, if_neg hquote, if_neg hopen, if_neg hclose]
  | case11 c cs hquote ih => exact (ih h).prepend [c] fun tail => by simp [groupEnd?, hquote]
  | case12 => simp at h
  | case13 cs hquote _ ih => exact (ih h).prepend [')'] fun tail => by simp [groupEnd?]
  | case14 c cs hquote hopen hclose ih =>
    refine (ih h).prepend [c] fun tail => ?_
    rw [List.singleton_append, groupEnd?, if_neg hquote, if_neg hopen, if_neg hclose]

end Lists

/-- The text of a tag: a word, or a word with an argument list that closes at the end of the tag. -/
inductive IsTag : List Char → Prop where
  | bare {w : List Char} : w ≠ [] → (∀ c ∈ w, isWord c = true) → IsTag w
  | applied {w blanks inner : List Char} : w ≠ [] → (∀ c ∈ w, isWord c = true) →
    (∀ c ∈ blanks, isBlank c = true) →
    (∀ rest, groupEnd? (fun _ => true) .outer false (inner ++ ')' :: rest) = some rest) →
    IsTag (w ++ (blanks ++ '(' :: (inner ++ [')'])))

/-- A text that goes on neither with the name of the tag before it nor with an argument list. -/
def EndsTag (rest : List Char) : Prop :=
  (∀ c ∈ rest.head?, isWord c = false) ∧ (skipBlanks rest).head? ≠ some '('

section Tags
variable {a cs rest tag : List Char}

theorem IsTag.trim_eq (h : IsTag tag) : trim tag = tag := by
  have hword : ∀ {w : List Char}, w ≠ [] → (∀ c ∈ w, isWord c = true) → ∀ b,
      ∀ c ∈ (w ++ b).head?, isBlank c = false := by
    intro w hne hw b c hc
    rw [List.head?_append_of_ne_nil _ hne] at hc
    exact not_isBlank_of_isWord (hw c (List.mem_of_mem_head? hc))
  cases h with
  | bare hne hw =>
    refine trim_eq_self ?_ fun c hc => not_isBlank_of_isWord (hw c (List.mem_of_getLast? hc))
    simpa using hword hne hw []
  | @applied w blanks inner hne hw =>
    refine trim_eq_self (hword hne hw _) fun c hc => ?_
    have hlast : w ++ (blanks ++ '(' :: (inner ++ [')'])) =
        (w ++ (blanks ++ '(' :: inner)) ++ [')'] := by simp
    rw [hlast, List.getLast?_concat] at hc
    obtain rfl := Option.some.inj hc
    rfl

theorem exists_of_annotationEnd? (h : annotationEnd? cs = some rest) :
    ∃ tag, cs = '@' :: (tag ++ rest) ∧ IsTag tag := by
  unfold annotationEnd? at h
  split at h
  · obtain ⟨⟨w, more⟩, hname, hrest⟩ := Option.map_eq_some_iff.1 h
    obtain ⟨hne, hw, rfl⟩ := eq_append_of_takeWord1? hname
    cases hlist : argumentListEnd? more with
    | none =>
      obtain rfl : more = rest := by simpa [hlist] using hrest
      exact ⟨w, rfl, .bare hne hw⟩
    | some stop =>
      obtain rfl : stop = rest := by simpa [hlist] using hrest
      unfold argumentListEnd? at hlist
      split at hlist
      · rename_i group hgroup
        obtain ⟨blanks, hblanks, hmore⟩ := exists_blanks more
        obtain ⟨inner, rfl, hinner⟩ := closesList_of_groupEnd? hlist
        refine ⟨_, ?_, .applied hne hw hblanks hinner⟩
        rw [hmore, hgroup]
        simp
      · simp at hlist
  · simp at h

theorem annotationEnd?_of_word (hne : a ≠ []) (hw : ∀ c ∈ a, isWord c = true)
    (hrest : ∀ c ∈ rest.head?, isWord c = false) :
    annotationEnd? ('@' :: (a ++ rest)) = some ((argumentListEnd? rest).getD rest) := by
  rw [annotationEnd?, takeWord1?_of_append hne hw hrest, Option.map_some]

theorem IsTag.annotationEnd?_eq (h : IsTag tag) (hrest : EndsTag rest) :
    annotationEnd? ('@' :: (tag ++ rest)) = some rest := by
  cases h with
  | bare hne hw =>
    have hnone : argumentListEnd? rest = none := by
      unfold argumentListEnd?
      split
      · rename_i inner hinner
        exact absurd (congrArg List.head? hinner) hrest.2
      · rfl
    rw [annotationEnd?_of_word hne hw hrest.1, hnone, Option.getD_none]
  | @applied w blanks inner hne hw hblanks hinner =>
    have hlist : argumentListEnd? (blanks ++ '(' :: (inner ++ ')' :: rest)) = some rest := by
      rw [argumentListEnd?, skipBlanks_append hblanks, skipBlanks_cons (by rfl)]
      exact hinner rest
    have htext : w ++ (blanks ++ '(' :: (inner ++ [')'])) ++ rest =
        w ++ (blanks ++ '(' :: (inner ++ ')' :: rest)) := by simp
    rw [htext, annotationEnd?_of_word hne hw ?_, hlist, Option.getD_some]
    cases blanks with
    | nil =>
      rintro c ⟨⟩
      rfl
    | cons b blanks =>
      rintro c ⟨⟩
      exact not_isWord_of_isBlank (hblanks b List.mem_cons_self)

theorem annotationEnd?_of_head (h : cs.head? ≠ some '@') : annotationEnd? cs = none := by
  rw [annotationEnd?]
  rintro cs rfl
  exact h rfl

theorem exists_of_tag? {t : String} (h : tag? cs = some (t, rest)) :
    cs = '@' :: (t.toList ++ rest) ∧ IsTag t.toList := by
  obtain ⟨stop, hstop, heq⟩ := Option.map_eq_some_iff.1 h
  obtain ⟨rfl, rfl⟩ := Prod.mk.inj heq
  obtain ⟨tag, rfl, htag⟩ := exists_of_annotationEnd? hstop
  have hbetween : between ('@' :: (tag ++ stop)) stop = '@' :: tag := by
    rw [← List.cons_append, between, List.length_append, Nat.add_sub_cancel, List.take_left]
  rw [hbetween, List.drop_one, List.tail_cons, String.toList_ofList]
  exact ⟨rfl, htag⟩

theorem IsTag.tag?_eq {t : String} (h : IsTag t.toList) (hrest : EndsTag rest) :
    tag? ('@' :: (t.toList ++ rest)) = some (t, rest) := by
  have hbetween : between ('@' :: (t.toList ++ rest)) rest = '@' :: t.toList := by
    rw [← List.cons_append, between, List.length_append, Nat.add_sub_cancel, List.take_left]
  rw [tag?, h.annotationEnd?_eq hrest, Option.map_some, hbetween, List.drop_one, List.tail_cons,
    String.ofList_toList]

theorem isTag_of_mem {text : List Char} {t : String} (h : t ∈ parseAnnotations text) :
    IsTag t.toList := by
  obtain ⟨_, place, _, -, hread⟩ := mem_findFrom (mem_of_mem_eraseDupsBy h)
  exact (exists_of_tag? hread).2

theorem quiet_blanks (h : ∀ c ∈ a, isBlank c = true) (rest : List Char) :
    Quiet (fun _ => tag?) a rest := by
  intro c hc hne before
  obtain ⟨b, c, rfl⟩ := List.exists_cons_of_ne_nil hne
  have hhead : (b :: c ++ rest).head? ≠ some '@' := by
    rintro ⟨⟩
    exact absurd (h '@' (hc.subset List.mem_cons_self)) (by decide)
  exact Option.map_eq_none_iff.2 (annotationEnd?_of_head hhead)

end Tags

def printAnnotations (ts : List (String × List Char)) : List Char :=
  ts.flatMap fun t => ('@' :: t.1.toList) ++ t.2

section Texts
variable {ts : List (String × List Char)} {gap : List Char}

theorem endsTag_printAnnotations (hgap : ∀ c ∈ gap, isBlank c = true) (ts : List (String × List Char)) :
    EndsTag (gap ++ printAnnotations ts) := by
  have hnext : ∀ c ∈ (printAnnotations ts).head?, c = '@' := by
    cases ts with
    | nil => simp [printAnnotations]
    | cons t ts =>
      rintro c ⟨⟩
      rfl
  constructor
  · intro c hc
    cases gap with
    | nil =>
      obtain rfl := hnext c hc
      rfl
    | cons b gap =>
      obtain rfl : b = c := Option.some.inj hc
      exact not_isWord_of_isBlank (hgap b List.mem_cons_self)
  · rw [skipBlanks_append hgap, skipBlanks_eq_self]
    · intro hparen
      exact absurd (hnext '(' hparen) (by decide)
    · intro c hc
      obtain rfl := hnext c hc
      rfl

theorem findFrom_printAnnotations (htags : ∀ t ∈ ts, IsTag t.1.toList)
    (hgaps : ∀ t ∈ ts, ∀ c ∈ t.2, isBlank c = true) (before : Option Char) :
    findFrom (fun _ => tag?) 0 before (printAnnotations ts) = ts.map Prod.fst := by
  induction ts generalizing before with
  | nil => rfl
  | cons t ts ih =>
    obtain ⟨htag, htags⟩ := List.forall_mem_cons.1 htags
    obtain ⟨hgap, hgaps⟩ := List.forall_mem_cons.1 hgaps
    have hread : tag? (('@' :: t.1.toList) ++ (t.2 ++ printAnnotations ts)) =
        some (t.1, t.2 ++ printAnnotations ts) := htag.tag?_eq (endsTag_printAnnotations hgap ts)
    have htext : printAnnotations (t :: ts) =
        ('@' :: t.1.toList) ++ (t.2 ++ printAnnotations ts) := by
      rw [printAnnotations, List.flatMap_cons, List.append_assoc]
      rfl
    rw [htext, findFrom_of_read (List.cons_ne_nil _ _) hread,
      findFrom_of_quiet (quiet_blanks hgap _), ih htags hgaps, List.map_cons]

theorem parseAnnotations_print (htags : ∀ t ∈ ts, IsTag t.1.toList)
    (hgaps : ∀ t ∈ ts, ∀ c ∈ t.2, isBlank c = true) :
    parseAnnotations (printAnnotations ts) = (ts.map Prod.fst).eraseDups := by
  rw [parseAnnotations, findAll, findFrom_printAnnotations htags hgaps]

end Texts

/-- The tags of a text are all different, they begin and end with other characters than blanks, and
they are read back, in their order, from a text of them and any blanks between them. -/
theorem parseAnnotations_again (text : List Char) :
    (parseAnnotations text).Nodup ∧ (∀ t ∈ parseAnnotations text, trim t.toList = t.toList) ∧
    ∀ ts, ts.map Prod.fst = parseAnnotations text → (∀ t ∈ ts, ∀ c ∈ t.2, isBlank c = true) →
      parseAnnotations (printAnnotations ts) = parseAnnotations text := by
  have hnodup : (parseAnnotations text).Nodup := nodup_eraseDups _
  refine ⟨hnodup, fun t ht => (isTag_of_mem ht).trim_eq, fun ts hts hgaps => ?_⟩
  have htags : ∀ t ∈ ts, IsTag t.1.toList := fun t ht =>
    isTag_of_mem (hts ▸ List.mem_map_of_mem ht)
  rw [parseAnnotations_print htags hgaps, hts, eraseDups_of_nodup hnodup]

def taggedText : List Char := "@A (x) @B(@C(\")\")) @D((@D @A (x)".toList

theorem parseAnnotations_again_taggedText :
    parseAnnotations taggedText = ["A (x)", "B(@C(\")\"))", "D"] ∧
    parseAnnotations "@A (x)@B(@C(\")\")) \n@D".toList = ["A (x)", "B(@C(\")\"))", "D"] := by
  have htags : parseAnnotations taggedText = ["A (x)", "B(@C(\")\"))", "D"] := by decide
  let tagsAndGaps : List (String × List Char) :=
    [("A (x)", []), ("B(@C(\")\"))", [' ', '\n']), ("D", [])]
  have hgaps : (tagsAndGaps.all fun t => t.2.all isBlank) = true := by decide
  have hagain := (parseAnnotations_again taggedText).2.2 tagsAndGaps htags.symm
    (by simpa only [List.all_eq_true] using hgaps)
  have htext : printAnnotations tagsAndGaps = "@A (x)@B(@C(\")\")) \n@D".toList := by
    decide
  rw [htext] at hagain
  exact ⟨htags, hagain.trans htags⟩

end KotlinSchema.Source
