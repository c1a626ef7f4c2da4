import KotlinSchema.Proofs.Text.Words
import Mathlib.Data.List.DropRight

/-! What trimming leaves of a text, and that it takes nothing from the inside of one. -/

namespace KotlinSchema.Text
variable {p : Char → Bool} {cs kept part : List Char}

theorem dropTrailing_eq_iff : dropTrailing p cs = kept ↔
    (∀ c ∈ kept.getLast?, p c = false) ∧
      ∃ dropped, (∀ c ∈ dropped, p c = true) ∧ cs = kept ++ dropped := by
  constructor
  · rintro rfl
    refine ⟨fun c hc => ?_, cs.rtakeWhile p, fun c hc => List.mem_rtakeWhile_imp hc,
      List.rdropWhile_append_rtakeWhile.symm⟩
    rw [dropTrailing, List.getLast?_reverse] at hc
    have hnot := List.head?_dropWhile_not p cs.reverse
    rw [hc] at hnot
    simpa using hnot
  · rintro ⟨hlast, dropped, hdropped, rfl⟩
    rw [dropTrailing, List.reverse_append, List.dropWhile_append_of_pos (by simpa using hdropped),
      dropWhile_eq_self (by simpa using hlast), List.reverse_reverse]

theorem dropTrailing_sublist (p : Char → Bool) (cs : List Char) :
    (dropTrailing p cs).Sublist cs := (List.rdropWhile_prefix p cs).sublist

theorem trim_sublist (cs : List Char) : (trim cs).Sublist cs :=
  (dropTrailing_sublist isBlank _).trans (List.dropWhile_sublist _)

theorem not_isBlank_skipBlanks (cs : List Char) :
    ∀ c ∈ (skipBlanks cs).head?, isBlank c = false := by
  intro c hc
  have h := List.head?_dropWhile_not isBlank cs
  rw [skipBlanks] at hc
  rw [hc] at h
  simpa using h

theorem trim_eq_iff : trim cs = kept ↔
    (∀ c ∈ kept.head?, isBlank c = false) ∧ (∀ c ∈ kept.getLast?, isBlank c = false) ∧
      ∃ left right, (∀ c ∈ left, isBlank c = true) ∧ (∀ c ∈ right, isBlank c = true) ∧
        cs = left ++ (kept ++ right) := by
  constructor
  · intro h
    obtain ⟨hlast, right, hright, hrest⟩ := dropTrailing_eq_iff.1 h
    obtain ⟨left, hleft, hcs⟩ := exists_blanks cs
    refine ⟨fun c hc => ?_, hlast, left, right, hleft, hright, hrest ▸ hcs⟩
    refine not_isBlank_skipBlanks cs c ?_
    rw [hrest]
    exact List.mem_head?_append_of_mem_head? hc
  · rintro ⟨hhead, hlast, left, right, hleft, hright, rfl⟩
    rw [trim_append hleft]
    cases kept with
    | nil => rw [trim, List.nil_append, skipBlanks, List.dropWhile_eq_nil_iff.2 hright,
        dropTrailing_nil]
    | cons c kept =>
      rw [trim, skipBlanks_eq_self (by simpa using hhead)]
      exact dropTrailing_eq_iff.2 ⟨hlast, right, hright, rfl⟩

theorem infix_of_infix_append {a b : List Char} (h : part <:+: a ++ b) (hb : ∀ c ∈ b, p c = true)
    {c : Char} (hlast : part.getLast? = some c) (hc : p c = false) : part <:+: a := by
  obtain ⟨left, right, hsplit⟩ := h
  rcases List.append_eq_append_iff.1 hsplit with ⟨right', ha, -⟩ | ⟨b', hleft, rfl⟩
  · exact ⟨left, right', ha.symm⟩
  · cases b' with
    | nil => exact ⟨left, [], by simpa using hleft⟩
    | cons d b' =>
      have hmem : c ∈ (d :: b').getLast? := by
        rw [← List.getLast?_append_of_ne_nil a (List.cons_ne_nil d b'), ← hleft,
          List.getLast?_append, hlast]
        rfl
      have hpos := hb c (List.mem_append_left _ (List.mem_of_getLast? hmem))
      simp [hc] at hpos

theorem infix_dropTrailing_iff {c : Char} (hlast : part.getLast? = some c) (hc : p c = false) :
    part <:+: dropTrailing p cs ↔ part <:+: cs := by
  obtain ⟨-, dropped, hdropped, hcs⟩ := dropTrailing_eq_iff.1 (Eq.refl (dropTrailing p cs))
  constructor
  · intro h
    exact h.trans (List.prefix_iff_exists_append_eq.2 ⟨dropped, hcs.symm⟩).isInfix
  · intro h
    rw [hcs] at h
    exact infix_of_infix_append h hdropped hlast hc

theorem infix_skipBlanks_iff {c : Char} (hhead : part.head? = some c) (hc : isBlank c = false) :
    part <:+: skipBlanks cs ↔ part <:+: cs := by
  have hreverse : skipBlanks cs = (dropTrailing isBlank cs.reverse).reverse := by
    rw [dropTrailing, List.reverse_reverse, List.reverse_reverse, skipBlanks]
  rw [hreverse, ← List.reverse_infix, List.reverse_reverse,
    infix_dropTrailing_iff (by rwa [List.getLast?_reverse]) hc, List.reverse_infix]

theorem infix_trim_iff {c d : Char} (hhead : part.head? = some c) (hc : isBlank c = false)
    (hlast : part.getLast? = some d) (hd : isBlank d = false) :
    part <:+: trim cs ↔ part <:+: cs := by
  rw [trim, infix_dropTrailing_iff hlast hd, infix_skipBlanks_iff hhead hc]

end KotlinSchema.Text
