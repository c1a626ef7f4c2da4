import KotlinSchema.Text.Ranges
import KotlinSchema.Text.WordTable

/-! Word characters: letters and digits of any script, and the underscore. A word is a run of them
that no further word character touches. -/

namespace KotlinSchema.Text

def isWord (c : Char) : Bool :=
  if c.toNat < 0x80 then c.isAlphanum || c == '_' else inRanges wordRanges c.toNat

theorem isWord_of_isAlphanum {c : Char} (h : c.isAlphanum = true) : isWord c = true := by
  have hc : c.toNat < 0x80 := by
    delta Char.isAlphanum Char.isAlpha Char.isUpper Char.isLower Char.isDigit at h
    simp only [Bool.or_eq_true, Bool.and_eq_true, decide_eq_true_eq, UInt32.le_iff_toNat_le] at h
    have e : c.toNat = c.val.toNat := rfl
    rw [e]
    rcases h with (⟨h1, h2⟩ | ⟨h1, h2⟩) | ⟨h1, h2⟩ <;> simp at h1 h2 <;> omega
  simp [isWord, hc, h]

def takeWord (cs : List Char) : List Char × List Char := (cs.takeWhile isWord, cs.dropWhile isWord)

def takeWord1? (cs : List Char) : Option (List Char × List Char) :=
  match takeWord cs with
  | ([], _) => none
  | (w, rest) => some (w, rest)

theorem takeWord_append (cs : List Char) : (takeWord cs).1 ++ (takeWord cs).2 = cs :=
  List.takeWhile_append_dropWhile

theorem takeWord1?_eq_some_iff {cs w rest : List Char} :
    takeWord1? cs = some (w, rest) ↔ w ≠ [] ∧ takeWord cs = (w, rest) := by
  unfold takeWord1?
  split
  · simp_all
  · rename_i u v hne htw
    rw [htw, Option.some.injEq]
    refine ⟨fun h => ⟨?_, h⟩, fun h => h.2⟩
    rw [← (Prod.mk.inj h).1]
    exact hne

theorem length_takeWord1?_lt {cs w rest : List Char} (h : takeWord1? cs = some (w, rest)) :
    rest.length < cs.length := by
  obtain ⟨hne, htake⟩ := takeWord1?_eq_some_iff.1 h
  have hlen := congrArg List.length (takeWord_append cs)
  simp only [htake, List.length_append] at hlen
  have hpos := List.length_pos_iff.2 hne
  omega

theorem isWord_of_mem_takeWord {cs : List Char} {c : Char} (h : c ∈ (takeWord cs).1) :
    isWord c = true := by
  induction cs with
  | nil => simp [takeWord] at h
  | cons d ds ih =>
    simp only [takeWord, List.takeWhile_cons] at h ih
    split at h
    · rcases List.mem_cons.1 h with rfl | h
      · assumption
      · exact ih h
    · simp at h

end KotlinSchema.Text
