import KotlinSchema.Proofs.Source.Resumption
import Mathlib.Order.Bounds.Defs

/-! Which brace closes a block. It is the first character of code at which as many braces have been
closed as opened since the block began. What follows that brace has no part in finding it, and two
blocks are nested or apart. -/

namespace KotlinSchema.Source
open Text

section Depth
variable {opening closing : Char} {depth : Int} {ms ms' : List Marked} {k : Nat}

theorem exists_closingOffset?_le (hne : opening ≠ closing) (hpos : 1 ≤ depth)
    (hlost : depth + balance opening closing (ms.take (k + 1)) ≤ 0) :
    ∃ j ≤ k, closingOffset? opening closing depth ms = some j := by
  induction ms generalizing depth k with
  | nil =>
    have hnil : balance opening closing (List.take (k + 1) []) = 0 := by simp [balance]
    omega
  | cons m ms ih =>
    by_cases hclose : m = (closing, .code) ∧ depth + depthChange opening closing m = 0
    · exact ⟨0, Nat.zero_le k, closingOffset?_of_closes hclose.1 hclose.2⟩
    · -- Unless this bracket closes the block, the block stays open behind it.
      have hcases := depthChange_cases hne m
      have hpos' : 1 ≤ depth + depthChange opening closing m := by grind
      rw [List.take_succ_cons, balance_cons, ← Int.add_assoc] at hlost
      cases k with
      | zero =>
        have hnil : balance opening closing (ms.take 0) = 0 := by simp [balance]
        omega
      | succ k =>
        obtain ⟨j, hj, hclosing⟩ := ih hpos' hlost
        refine ⟨j + 1, by omega, ?_⟩
        rw [closingOffset?_of_not_closes hclose, hclosing]
        rfl

theorem balance_eq_count (hne : opening ≠ closing) (ms : List Marked) :
    balance opening closing ms = ms.count (opening, .code) - ms.count (closing, .code) := by
  induction ms with
  | nil => simp [balance]
  | cons m ms ih =>
    rw [balance_cons, ih]
    rcases depthChange_cases hne m with ⟨rfl, hd⟩ | ⟨rfl, hd⟩ | ⟨ho, hc, hd⟩
    · have hother : (opening, Region.code) ≠ (closing, .code) := by simp [hne]
      rw [hd, List.count_cons_self, List.count_cons_of_ne hother]
      omega
    · have hother : (closing, Region.code) ≠ (opening, .code) := by simp [hne.symm]
      rw [hd, List.count_cons_self, List.count_cons_of_ne hother]
      omega
    · rw [hd, List.count_cons_of_ne ho, List.count_cons_of_ne hc]
      omega

theorem closingOffset?_append_right (h : closingOffset? opening closing depth ms = some k)
    (ms' : List Marked) : closingOffset? opening closing depth (ms ++ ms') = some k := by
  have hk : k < ms.length := by
    have hclose := (closingOffset?_eq_some_iff.1 h).1.1
    exact (List.getElem?_eq_some_iff.1 hclose).1
  have hsame : ∀ j ≤ k, ClosesAt opening closing depth (ms ++ ms') j ↔
      ClosesAt opening closing depth ms j := by
    intro j hj
    have htake : ClosesAt opening closing depth ((ms ++ ms').take ms.length) j ↔
        ClosesAt opening closing depth (ms ++ ms') j := closesAt_take (Nat.lt_of_le_of_lt hj hk)
    rw [List.take_left] at htake
    exact htake.symm
  rw [closingOffset?_eq_some_iff] at h ⊢
  refine ⟨(hsame k (Nat.le_refl k)).2 h.1, fun j hj hclose => ?_⟩
  exact h.2 j hj ((hsame j hj.le).1 hclose)

end Depth

section Behind
variable {before after : List Char}

theorem exists_of_getElem? {α : Type} {l : List α} {a : α} {i : Nat} (h : l[i]? = some a) :
    ∃ before after, l = before ++ a :: after ∧ before.length = i := by
  have hi := (List.getElem?_eq_some_iff.1 h).1
  refine ⟨l.take i, l.drop (i + 1), ?_, List.length_take_of_le hi.le⟩
  rw [← drop_eq_of_getElem? h, List.take_append_drop]

theorem marked_append_cons {c : Char} (hslash : c ≠ '/') (hstar : c ≠ '*') (hquote : ¬IsQuote c)
    (h : modeAt .code before before.length = .code) (rest : List Char) :
    marked (before ++ c :: rest) = marked before ++ (c, .code) :: marked rest := by
  obtain ⟨hdouble, hsingle⟩ := not_or.1 hquote
  have hstep : step .code c rest = (.code, .code) := by
    simp [step_code_eq, hslash, hdouble, hsingle]
  rw [marked, mark_append hslash hstar hdouble, h, mark_cons, hstep]
  rfl

theorem modeAt_of_brace
    (h : (marked (before ++ '}' :: after))[before.length]? = some ('}', .code)) :
    modeAt .code before before.length = .code := by
  have hlength : (mark .code before).length = before.length := length_mark .code before
  rw [marked, mark_append (by decide) (by decide) (by decide),
    List.getElem?_append_right hlength.le, hlength, Nat.sub_self, mark_cons,
    List.getElem?_cons_zero] at h
  exact (step_region_code (congrArg Prod.snd (Option.some.inj h))).1

end Behind

/-- As many braces are closed as opened in the code from one offset to another one, which lies
behind it. -/
structure BalancesAt (source : List Char) (start stop : Nat) : Prop where
  lt : start < stop
  isCode : ∃ c, (stop, c) ∈ keptChars false source 0
  counts : (codeIn source start (stop + 1)).count '{' = (codeIn source start (stop + 1)).count '}'

section Braces
variable {source : List Char} {p q stop stop' : Nat}

theorem balance_of_codeIn (source : List Char) (p stop : Nat) :
    balance '{' '}' (((marked source).drop p).take (stop + 1 - p)) =
      (codeIn source p (stop + 1)).count '{' - (codeIn source p (stop + 1)).count '}' := by
  rw [balance_eq_count (by decide), count_codeIn, count_codeIn, List.drop_take]

theorem closes_iff_of_open (h : (marked source)[p]? = some ('{', .code)) :
    Closes source p stop ↔
      ∃ k, stop = p + 1 + k ∧ closingOffset? '{' '}' 1 ((marked source).drop (p + 1)) = some k := by
  have hfrom : closingOffset? '{' '}' 0 ((marked source).drop p) =
      (closingOffset? '{' '}' 1 ((marked source).drop (p + 1))).map (· + 1) := by
    rw [drop_eq_of_getElem? h, closingOffset?_of_opening (by decide)]
  rw [closes_iff, hfrom, Option.map_eq_some_iff]
  constructor
  · rintro ⟨hle, k, hk, hstop⟩
    exact ⟨k, by omega, hk⟩
  · rintro ⟨k, rfl, hk⟩
    exact ⟨by omega, k, hk, by omega⟩

theorem Closes.unique (h : Closes source p stop) (h' : Closes source p stop') : stop = stop' := by
  rw [closes_iff] at h h'
  have hoffset : stop - p = stop' - p := Option.some.inj (h.2.symm.trans h'.2)
  omega

theorem Closes.brace (h : Closes source p stop) : (marked source)[stop]? = some ('}', .code) := by
  have hclose := h.closesAt.1
  rwa [List.getElem?_drop, Nat.add_sub_cancel' h.le] at hclose

theorem Closes.balancesAt (h : Closes source p stop)
    (hopen : (marked source)[p]? = some ('{', .code)) : BalancesAt source p stop := by
  have hbrace := h.brace
  have hne : p ≠ stop := by
    rintro rfl
    exact absurd (hopen.symm.trans hbrace) (by decide)
  refine ⟨Nat.lt_of_le_of_ne h.le hne, ⟨'}', mem_keptChars_false.2 hbrace⟩, ?_⟩
  have hbalance := h.closesAt.2
  have hlength : stop - p + 1 = stop + 1 - p := by
    have := h.le
    omega
  rw [hlength, balance_of_codeIn] at hbalance
  omega

theorem exists_closes_of_balancesAt (hopen : (marked source)[p]? = some ('{', .code))
    (h : BalancesAt source p stop) : ∃ stop' ≤ stop, Closes source p stop' := by
  obtain ⟨k, rfl⟩ := Nat.exists_eq_add_of_lt h.lt
  have hbalance := balance_of_codeIn source p (p + k + 1)
  have hlength : p + k + 1 + 1 - p = k + 1 + 1 := by omega
  have hbrace : depthChange '{' '}' ('{', .code) = 1 := by simp [depthChange]
  rw [h.counts, hlength, drop_eq_of_getElem? hopen, List.take_succ_cons, balance_cons,
    hbrace] at hbalance
  have hlost : 1 + balance '{' '}' (((marked source).drop (p + 1)).take (k + 1)) ≤ 0 := by omega
  obtain ⟨j, hj, hclosing⟩ := exists_closingOffset?_le (by decide) (Int.le_refl 1) hlost
  exact ⟨p + 1 + j, by omega, (closes_iff_of_open hopen).2 ⟨j, rfl, hclosing⟩⟩

theorem closes_iff_isLeast (hopen : (marked source)[p]? = some ('{', .code)) :
    Closes source p stop ↔ IsLeast {stop | BalancesAt source p stop} stop := by
  constructor
  · intro h
    refine ⟨h.balancesAt hopen, fun stop' h' => ?_⟩
    obtain ⟨first, hfirst, hcloses⟩ := exists_closes_of_balancesAt hopen h'
    exact (h.unique hcloses).le.trans hfirst
  · rintro ⟨h, hleast⟩
    obtain ⟨first, hfirst, hcloses⟩ := exists_closes_of_balancesAt hopen h
    have hstop : stop = first := le_antisymm (hleast (hcloses.balancesAt hopen)) hfirst
    exact hstop ▸ hcloses

theorem marked_take_append (h : (marked source)[stop]? = some ('}', .code)) (rest : List Char) :
    marked (source.take (stop + 1) ++ rest) = (marked source).take (stop + 1) ++ marked rest := by
  obtain ⟨before, after, rfl, rfl⟩ := exists_of_getElem? (getElem?_of_marked h)
  have hread := marked_append_cons (c := '}') (by decide) (by decide) (by simp [IsQuote])
    (modeAt_of_brace h)
  have htake : (before ++ '}' :: after).take (before.length + 1) = before ++ ['}'] :=
    List.take_length_add_append 1
  have hmarked : (marked (before ++ '}' :: after)).take (before.length + 1) =
      marked before ++ [('}', .code)] := by
    rw [hread, ← length_marked before, List.take_length_add_append]
    rfl
  calc marked ((before ++ '}' :: after).take (before.length + 1) ++ rest)
    _ = marked (before ++ '}' :: rest) := by rw [htake, List.append_assoc, List.singleton_append]
    _ = marked before ++ ('}', .code) :: marked rest := hread rest
    _ = (marked (before ++ '}' :: after)).take (before.length + 1) ++ marked rest := by
      rw [hmarked, List.append_assoc, List.singleton_append]

theorem Closes.blockEnd_append (h : Closes source p stop)
    (hopen : (marked source)[p]? = some ('{', .code)) (rest : List Char) :
    blockEnd (source.take (stop + 1) ++ rest) p = .ok stop := by
  have hmarked := marked_take_append h.brace rest
  have hlt : p < stop + 1 := Nat.lt_succ_of_le h.le
  have hlength : p < ((marked source).take (stop + 1)).length := by
    have hp := (List.getElem?_eq_some_iff.1 hopen).1
    rw [List.length_take]
    omega
  have hopen' : (marked (source.take (stop + 1) ++ rest))[p]? = some ('{', .code) := by
    rw [hmarked, List.getElem?_append_left hlength, List.getElem?_take_of_lt hlt, hopen]
  rw [blockEnd_eq_ok_iff hopen', closes_iff]
  refine ⟨h.le, ?_⟩
  have hclosing := closingOffset?_take (n := stop + 1 - p) (closes_iff.1 h).2 (by omega)
  rw [hmarked, List.drop_append_of_le_length hlength.le, List.drop_take]
  exact closingOffset?_append_right hclosing _

theorem Closes.apart_or_nested (h : Closes source p stop) (h' : Closes source q stop')
    (hopen : (marked source)[p]? = some ('{', .code))
    (hopen' : (marked source)[q]? = some ('{', .code)) (hlt : p < q) :
    stop < q ∨ stop' < stop := by
  rcases Nat.lt_trichotomy stop q with hbefore | rfl | hinside
  · exact .inl hbefore
  · exact absurd (hopen'.symm.trans h.brace) (by decide)
  · right
    obtain ⟨k, rfl, hk⟩ := (closes_iff_of_open hopen).1 h
    obtain ⟨i, rfl⟩ := Nat.exists_eq_add_of_le (Nat.succ_le_of_lt hlt)
    have hat : ((marked source).drop (p + 1))[i]? = some ('{', .code) := by
      rw [List.getElem?_drop]
      exact hopen'
    -- The inner brace is closed before the end of the outer block, and it is closed only once.
    obtain ⟨j, hj, hclosing⟩ :=
      closingOffset?_nested (by decide) (Int.le_refl 1) hk (i := i) (by omega) hat
    rw [List.drop_drop] at hclosing
    have hinner : Closes source (p + 1 + i) (p + 1 + i + j) :=
      closes_iff.2 ⟨by omega, by rwa [Nat.add_sub_cancel_left]⟩
    have hstop : stop' = p + 1 + i + j := h'.unique hinner
    omega

end Braces

/-- A brace that stands in code is matched with the least offset of code behind it at which the
braces balance; matching fails exactly if there is none. Whatever is put behind the end of a block
leaves it where it is. And of two blocks, either the first one ends before the other begins, or the
other ends before the first one does. -/
theorem blockEnd_isLeast {source : List Char} {p : Nat}
    (h : (p, '{') ∈ keptChars false source 0) :
    (∀ stop, blockEnd source p = .ok stop ↔ IsLeast {stop | BalancesAt source p stop} stop) ∧
    (∀ fault, blockEnd source p = .error fault ↔
      (¬∃ stop, BalancesAt source p stop) ∧ fault = ⟨lineAt source p⟩) ∧
    (∀ stop rest, blockEnd source p = .ok stop →
      blockEnd (source.take (stop + 1) ++ rest) p = .ok stop) ∧
    ∀ q stop stop', (q, '{') ∈ keptChars false source 0 → p < q →
      blockEnd source p = .ok stop → blockEnd source q = .ok stop' →
      stop < q ∨ stop' < stop := by
  have hopen : (marked source)[p]? = some ('{', .code) := mem_keptChars_false.1 h
  refine ⟨fun stop => ?_, fun fault => ?_, fun stop rest hstop => ?_, ?_⟩
  · rw [blockEnd_eq_ok_iff hopen, closes_iff_isLeast hopen]
  · have hcloses : (∃ stop, Closes source p stop) ↔ ∃ stop, BalancesAt source p stop := by
      constructor
      · rintro ⟨stop, hstop⟩
        exact ⟨stop, hstop.balancesAt hopen⟩
      · rintro ⟨stop, hstop⟩
        obtain ⟨first, -, hfirst⟩ := exists_closes_of_balancesAt hopen hstop
        exact ⟨first, hfirst⟩
    rw [blockEnd_eq_error_iff hopen, hcloses]
  · have hstop : Closes source p stop := (blockEnd_eq_ok_iff hopen).1 hstop
    exact hstop.blockEnd_append hopen rest
  · intro q stop stop' hq hlt hstop hstop'
    have hopen' : (marked source)[q]? = some ('{', .code) := mem_keptChars_false.1 hq
    have hstop : Closes source p stop := (blockEnd_eq_ok_iff hopen).1 hstop
    have hstop' : Closes source q stop' := (blockEnd_eq_ok_iff hopen').1 hstop'
    exact hstop.apart_or_nested hstop' hopen hopen' hlt

theorem blockEnd_isLeast_bracedText :
    (6, '{') ∈ keptChars false bracedText 0 ∧ (14, '{') ∈ keptChars false bracedText 0 ∧
    blockEnd bracedText 6 = .ok 16 ∧ blockEnd bracedText 14 = .ok 15 ∧
    IsLeast {stop | BalancesAt bracedText 6 stop} 16 ∧
    (∀ rest, blockEnd (bracedText.take 17 ++ rest) 6 = .ok 16) ∧ (16 < 14 ∨ 15 < 16) := by
  have houter : (6, '{') ∈ keptChars false bracedText 0 := by decide
  have hinner : (14, '{') ∈ keptChars false bracedText 0 := by decide
  have hstop : blockEnd bracedText 6 = .ok 16 := by rfl
  have hstop' : blockEnd bracedText 14 = .ok 15 := by rfl
  obtain ⟨hleast, -, hbehind, hnested⟩ := blockEnd_isLeast houter
  exact ⟨houter, hinner, hstop, hstop', (hleast 16).1 hstop, fun rest => hbehind 16 rest hstop,
    hnested 14 16 15 hinner (by decide) hstop hstop'⟩

end KotlinSchema.Source
