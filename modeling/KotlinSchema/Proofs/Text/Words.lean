import KotlinSchema.Text.Recogniser
import KotlinSchema.Text.Trim
import KotlinSchema.Text.Word
import Mathlib.Data.List.Basic
import Mathlib.Data.List.TakeWhile

/-! Words and the blanks between them. No character is both, so a word ends at the first blank after
it and blanks end at the first word. -/

namespace KotlinSchema.Text

theorem not_isWord_of_isBlank {c : Char} (h : isBlank c = true) : isWord c = false := by
  have hblanks : ∀ n ∈ blankRanges.flatMap fun r => List.range' r.1 (r.2 + 1 - r.1),
      isWord (Char.ofNat n) = false := by decide +kernel
  obtain ⟨r, hr, hlow, hhigh⟩ := inRanges_iff.1 h
  rw [← Char.ofNat_toNat c]
  exact hblanks _ (List.mem_flatMap.2 ⟨r, hr, List.mem_range'_1.2 ⟨hlow, by omega⟩⟩)

theorem not_isBlank_of_isWord {c : Char} (h : isWord c = true) : isBlank c = false := by
  by_contra hb
  simp [not_isWord_of_isBlank (by simpa using hb)] at h

theorem not_mem_of_class {p : Char → Bool} {c : Char} {ds : List Char} (h : p c = true)
    (hds : (ds.all fun d => !p d) = true) : c ∉ ds := by
  intro hc
  simpa [h] using List.all_eq_true.1 hds c hc

theorem dropWhile_eq_self {p : Char → Bool} {cs : List Char} (h : ∀ c ∈ cs.head?, p c = false) :
    cs.dropWhile p = cs := by
  cases cs with
  | nil => rfl
  | cons c rest => simp [h c rfl]

section Blanks
variable {blanks cs rest : List Char} {c : Char}

theorem skipBlanks_append (h : ∀ c ∈ blanks, isBlank c = true) (rest : List Char) :
    skipBlanks (blanks ++ rest) = skipBlanks rest := List.dropWhile_append_of_pos h

theorem skipBlanks_cons (h : isBlank c = false) (rest : List Char) :
    skipBlanks (c :: rest) = c :: rest := by
  simp [skipBlanks, h]

theorem skipBlanks_eq_self (h : ∀ c ∈ cs.head?, isBlank c = false) : skipBlanks cs = cs :=
  dropWhile_eq_self h

theorem exists_blanks (cs : List Char) :
    ∃ blanks, (∀ c ∈ blanks, isBlank c = true) ∧ cs = blanks ++ skipBlanks cs :=
  ⟨cs.takeWhile isBlank, fun _ hc => List.mem_takeWhile_imp hc,
    List.takeWhile_append_dropWhile.symm⟩

theorem trim_eq_self (hhead : ∀ c ∈ cs.head?, isBlank c = false)
    (hlast : ∀ c ∈ cs.getLast?, isBlank c = false) : trim cs = cs := by
  rw [trim, skipBlanks_eq_self hhead, dropTrailing, dropWhile_eq_self, List.reverse_reverse]
  simpa using hlast

theorem trim_append (h : ∀ c ∈ blanks, isBlank c = true) (cs : List Char) :
    trim (blanks ++ cs) = trim cs := by
  rw [trim, skipBlanks_append h, trim]

end Blanks

def Solid (a : List Char) : Prop := ∀ c ∈ a, isBlank c = false

section Solid
variable {a b : List Char}

theorem solid_append (ha : Solid a) (hb : Solid b) : Solid (a ++ b) :=
  List.forall_mem_append.2 ⟨ha, hb⟩

theorem solid_of_all (h : (a.all fun c => !isBlank c) = true) : Solid a :=
  fun c hc => by simpa using List.all_eq_true.1 h c hc

theorem solid_of_isWord (h : ∀ c ∈ a, isWord c = true) : Solid a :=
  fun c hc => not_isBlank_of_isWord (h c hc)

theorem head?_append_of_solid (ha : Solid a) (hne : a ≠ []) (rest : List Char) :
    ∀ c ∈ (a ++ rest).head?, isBlank c = false := by
  obtain ⟨x, a, rfl⟩ := List.exists_cons_of_ne_nil hne
  simpa using ha x List.mem_cons_self

theorem trim_between (ha : Solid a) (hne : a ≠ []) (gap : List Char) (hb : Solid b)
    (hne' : b ≠ []) : trim (a ++ (gap ++ b)) = a ++ (gap ++ b) := by
  refine trim_eq_self (head?_append_of_solid ha hne _) fun c hc => ?_
  rw [← List.append_assoc, List.getLast?_append_of_ne_nil _ hne'] at hc
  exact hb c (List.mem_of_getLast? hc)

theorem pieces_eq_self {isSep : Char → Bool} (h : ∀ c ∈ a, isSep c = false) :
    pieces isSep a = [a] := by
  induction a with
  | nil => rfl
  | cons c a ih =>
    rw [pieces, if_neg (by simp [h c List.mem_cons_self]),
      ih fun d hd => h d (List.mem_cons_of_mem c hd)]

theorem pieces_append {isSep : Char → Bool} {s : Char} (h : ∀ c ∈ a, isSep c = false)
    (hs : isSep s = true) (b : List Char) : pieces isSep (a ++ s :: b) = a :: pieces isSep b := by
  induction a with
  | nil => rw [List.nil_append, pieces, if_pos hs]
  | cons c a ih =>
    rw [List.cons_append, pieces, if_neg (by simp [h c List.mem_cons_self]),
      ih fun d hd => h d (List.mem_cons_of_mem c hd)]

theorem words_of_solid (ha : Solid a) (hne : a ≠ []) : words a = [a] := by
  rw [words, pieces_eq_self ha, List.filter_cons_of_pos (by simpa using hne), List.filter_nil]

theorem words_of_solid_append (ha : Solid a) (hne : a ≠ []) (b : List Char) :
    words (a ++ ' ' :: b) = a :: words b := by
  rw [words, pieces_append ha rfl, List.filter_cons_of_pos (by simpa using hne), words]

end Solid

/-- A text of words with one blank between each two. -/
inductive Spaced : List Char → Prop where
  | word {w : List Char} : w ≠ [] → Solid w → Spaced w
  | cons {w rest : List Char} : w ≠ [] → Solid w → Spaced rest → Spaced (w ++ ' ' :: rest)

section Spaced
variable {a b : List Char}

theorem Spaced.append (ha : Spaced a) (hb : Spaced b) : Spaced (a ++ b) := by
  induction ha with
  | @word w hne hw =>
    cases hb with
    | word hne' hw' => exact .word (List.append_ne_nil_of_left_ne_nil hne _) (solid_append hw hw')
    | cons hne' hw' hrest =>
      rw [← List.append_assoc]
      exact .cons (List.append_ne_nil_of_left_ne_nil hne _) (solid_append hw hw') hrest
  | cons hne hw _ ih =>
    rw [List.append_assoc, List.cons_append]
    exact .cons hne hw ih

theorem Spaced.space (ha : Spaced a) (hb : Spaced b) : Spaced (a ++ ' ' :: b) := by
  induction ha with
  | word hne hw => exact .cons hne hw hb
  | cons hne hw _ ih =>
    rw [List.append_assoc, List.cons_append]
    exact .cons hne hw ih

theorem Spaced.ne_nil (ha : Spaced a) : a ≠ [] := by
  cases ha with
  | word hne _ => exact hne
  | cons hne _ _ => exact List.append_ne_nil_of_left_ne_nil hne _

theorem Spaced.intersperse_words (ha : Spaced a) :
    ((words a).intersperse [' ']).flatten = a := by
  induction ha with
  | word hne hw =>
    rw [words_of_solid hw hne]
    simp
  | @cons w rest hne hw hrest ih =>
    have hwords : words rest ≠ [] := by
      intro hnil
      rw [hnil] at ih
      exact hrest.ne_nil ih.symm
    obtain ⟨v, vs, hvs⟩ := List.exists_cons_of_ne_nil hwords
    rw [words_of_solid_append hw hne, hvs, List.intersperse_cons_cons, List.flatten_cons,
      List.flatten_cons, ← hvs, ih]
    rfl

theorem Spaced.trim_eq (ha : Spaced a) : trim a = a := by
  refine trim_eq_self ?_ ?_
  · cases ha with
    | word hne hw => exact fun c hc => hw c (List.mem_of_mem_head? hc)
    | cons hne hw _ => exact head?_append_of_solid hw hne _
  · induction ha with
    | word hne hw => exact fun c hc => hw c (List.mem_of_getLast? hc)
    | @cons w rest _ _ hrest ih =>
      rw [List.append_cons, List.getLast?_append_of_ne_nil _ hrest.ne_nil]
      exact ih

end Spaced

section Words
variable {w cs rest : List Char}

theorem takeWord_of_append (hw : ∀ c ∈ w, isWord c = true)
    (hrest : ∀ c ∈ rest.head?, isWord c = false) : takeWord (w ++ rest) = (w, rest) := by
  have htake : rest.takeWhile isWord = [] := by
    cases rest with
    | nil => rfl
    | cons c rest => simp [hrest c rfl]
  rw [takeWord, List.takeWhile_append_of_pos hw, List.dropWhile_append_of_pos hw, htake,
    dropWhile_eq_self hrest, List.append_nil]

theorem eq_append_of_takeWord (h : takeWord cs = (w, rest)) :
    (∀ c ∈ w, isWord c = true) ∧ cs = w ++ rest := by
  have hcs := takeWord_append cs
  have hword := fun (c : Char) (hc : c ∈ (takeWord cs).1) => isWord_of_mem_takeWord hc
  rw [h] at hcs hword
  exact ⟨hword, hcs.symm⟩

theorem takeWord1?_of_append (hne : w ≠ []) (hw : ∀ c ∈ w, isWord c = true)
    (hrest : ∀ c ∈ rest.head?, isWord c = false) : takeWord1? (w ++ rest) = some (w, rest) :=
  takeWord1?_eq_some_iff.2 ⟨hne, takeWord_of_append hw hrest⟩

theorem eq_append_of_takeWord1? (h : takeWord1? cs = some (w, rest)) :
    w ≠ [] ∧ (∀ c ∈ w, isWord c = true) ∧ cs = w ++ rest := by
  obtain ⟨hne, htake⟩ := takeWord1?_eq_some_iff.1 h
  exact ⟨hne, eq_append_of_takeWord htake⟩

end Words

end KotlinSchema.Text

namespace KotlinSchema
open Text

def IsGap (gap : List Char) : Prop := gap ≠ [] ∧ ∀ c ∈ gap, isBlank c = true

section Gaps
variable {cs rest : List Char}

theorem exists_gap_of_skipBlanks1? (h : skipBlanks1? cs = some rest) :
    ∃ gap, IsGap gap ∧ cs = gap ++ rest := by
  cases cs with
  | nil => simp [skipBlanks1?] at h
  | cons c cs =>
    rw [skipBlanks1?] at h
    split at h
    · rename_i hc
      obtain rfl := Option.some.inj h
      obtain ⟨blanks, hblanks, hcs⟩ := exists_blanks cs
      refine ⟨c :: blanks, ⟨List.cons_ne_nil _ _, List.forall_mem_cons.2 ⟨hc, hblanks⟩⟩, ?_⟩
      rw [List.cons_append, ← hcs]
    · simp at h

theorem exists_gap_of_keyword? {word : String} (h : keyword? word cs = some rest) :
    ∃ gap, IsGap gap ∧ cs = word.toList ++ (gap ++ rest) := by
  obtain ⟨after, hafter, hblanks⟩ := Option.bind_eq_some_iff.1 h
  obtain ⟨gap, hgap, rfl⟩ := exists_gap_of_skipBlanks1? hblanks
  exact ⟨gap, hgap, after?_eq_some hafter⟩

end Gaps

end KotlinSchema
