import KotlinSchema.Proofs.Source.Masking
import KotlinSchema.Source.Block

/-! Brace blocks. A brace is closed by the first closing brace at which the braces from it on
balance. A block that has been cut out of a text reads as it did inside of the text, its own braces
balance, and so the blocks nested in it can always be blanked. -/

namespace KotlinSchema.Source
open Text

/-- The opening brackets in a stretch of text less its closing ones, in code. -/
def balance (opening closing : Char) (ms : List Marked) : Int :=
  ms.foldr (fun m depth => depthChange opening closing m + depth) 0

/-- A closing bracket in code takes the depth to zero. -/
def ClosesAt (opening closing : Char) (depth : Int) (ms : List Marked) (offset : Nat) : Prop :=
  ms[offset]? = some (closing, .code) ∧
    depth + balance opening closing (ms.take (offset + 1)) = 0

section Closing
variable {opening closing : Char} {depth : Int} {m : Marked} {ms : List Marked} {k : Nat}

theorem balance_cons (opening closing : Char) (m : Marked) (ms : List Marked) :
    balance opening closing (m :: ms) =
      depthChange opening closing m + balance opening closing ms := rfl

theorem balance_append (opening closing : Char) (ms ns : List Marked) :
    balance opening closing (ms ++ ns) =
      balance opening closing ms + balance opening closing ns := by
  induction ms with
  | nil => simp [balance]
  | cons m ms ih => rw [List.cons_append, balance_cons, balance_cons, ih, Int.add_assoc]

theorem closingOffset?_of_closes (hm : m = (closing, .code))
    (h : depth + depthChange opening closing m = 0) :
    closingOffset? opening closing depth (m :: ms) = some 0 := by
  rw [closingOffset?, if_pos ⟨hm, h⟩]

theorem closingOffset?_of_not_closes
    (h : ¬(m = (closing, .code) ∧ depth + depthChange opening closing m = 0)) :
    closingOffset? opening closing depth (m :: ms) =
      (closingOffset? opening closing (depth + depthChange opening closing m) ms).map (· + 1) := by
  rw [closingOffset?, if_neg h]

theorem closingOffset?_of_opening (hne : opening ≠ closing) (ms : List Marked) :
    closingOffset? opening closing 0 ((opening, .code) :: ms) =
      (closingOffset? opening closing 1 ms).map (· + 1) := by
  rw [closingOffset?_of_not_closes (by simp [hne]), depthChange, if_pos rfl, Int.zero_add]

theorem closingOffset?_cons_none
    (h : ¬(m = (closing, .code) ∧ depth + depthChange opening closing m = 0))
    (hnone : closingOffset? opening closing (depth + depthChange opening closing m) ms = none) :
    closingOffset? opening closing depth (m :: ms) = none := by
  rw [closingOffset?_of_not_closes h, hnone]
  rfl

theorem closingOffset?_cons_cases
    (h : closingOffset? opening closing depth (m :: ms) = some k) :
    (m = (closing, .code) ∧ depth + depthChange opening closing m = 0 ∧ k = 0) ∨
      (¬(m = (closing, .code) ∧ depth + depthChange opening closing m = 0) ∧
        ∃ i, closingOffset? opening closing (depth + depthChange opening closing m) ms = some i ∧
          k = i + 1) := by
  by_cases hclose : m = (closing, .code) ∧ depth + depthChange opening closing m = 0
  · rw [closingOffset?_of_closes hclose.1 hclose.2] at h
    exact .inl ⟨hclose.1, hclose.2, (Option.some.inj h).symm⟩
  · rw [closingOffset?_of_not_closes hclose, Option.map_eq_some_iff] at h
    obtain ⟨i, hi, rfl⟩ := h
    exact .inr ⟨hclose, i, hi, rfl⟩

theorem closesAt_zero :
    ClosesAt opening closing depth (m :: ms) 0 ↔
      m = (closing, .code) ∧ depth + depthChange opening closing m = 0 := by
  simp [ClosesAt, balance]

theorem closesAt_succ :
    ClosesAt opening closing depth (m :: ms) (k + 1) ↔
      ClosesAt opening closing (depth + depthChange opening closing m) ms k := by
  simp [ClosesAt, balance_cons, Int.add_assoc]

theorem closesAt_take {n : Nat} (hk : k < n) :
    ClosesAt opening closing depth (ms.take n) k ↔ ClosesAt opening closing depth ms k := by
  rw [ClosesAt, ClosesAt, List.getElem?_take_of_lt hk, List.take_take, Nat.min_eq_left hk]

theorem closingOffset?_eq_some_iff :
    closingOffset? opening closing depth ms = some k ↔
      ClosesAt opening closing depth ms k ∧ ∀ j < k, ¬ClosesAt opening closing depth ms j := by
  induction ms generalizing depth k with
  | nil => simp [closingOffset?, ClosesAt]
  | cons m ms ih =>
    by_cases h : m = (closing, .code) ∧ depth + depthChange opening closing m = 0
    · rw [closingOffset?_of_closes h.1 h.2]
      have hzero : ClosesAt opening closing depth (m :: ms) 0 := closesAt_zero.2 h
      cases k with
      | zero => simp [hzero]
      | succ k =>
        simp only [Option.some.injEq, reduceCtorEq, false_iff, not_and]
        exact fun _ hfirst => hfirst 0 (Nat.succ_pos k) hzero
    · rw [closingOffset?_of_not_closes h, Option.map_eq_some_iff]
      cases k with
      | zero => simp [closesAt_zero, h]
      | succ k =>
        simp only [Nat.add_right_cancel_iff, exists_eq_right, ih, closesAt_succ]
        refine and_congr_right fun _ => ⟨fun hfirst j hj => ?_, fun hfirst j hj => ?_⟩
        · cases j with
          | zero => exact fun hj => h (closesAt_zero.1 hj)
          | succ j => exact fun hj' => hfirst j (by omega) (closesAt_succ.1 hj')
        · exact fun hj' => hfirst (j + 1) (by omega) (closesAt_succ.2 hj')

theorem depthChange_of_ne (ho : m ≠ (opening, .code)) (hc : m ≠ (closing, .code)) :
    depthChange opening closing m = 0 := by
  obtain ⟨c, r⟩ := m
  cases r <;> simp_all [depthChange]

theorem depthChange_cases (hne : opening ≠ closing) (m : Marked) :
    (m = (opening, .code) ∧ depthChange opening closing m = 1) ∨
      (m = (closing, .code) ∧ depthChange opening closing m = -1) ∨
      (m ≠ (opening, .code) ∧ m ≠ (closing, .code) ∧ depthChange opening closing m = 0) := by
  obtain ⟨c, r⟩ := m
  cases r with
  | code => by_cases ho : c = opening <;> by_cases hc : c = closing <;> simp_all [depthChange]
  | literal => simp [depthChange]
  | comment => simp [depthChange]

theorem closingOffset?_of_lt (hne : opening ≠ closing) {depth' : Int}
    (h : closingOffset? opening closing depth ms = some k) (hpos : 1 ≤ depth')
    (hlt : depth' < depth) :
    ∃ k' < k, closingOffset? opening closing depth' ms = some k' := by
  induction ms generalizing depth depth' k with
  | nil => simp [closingOffset?] at h
  | cons m ms ih =>
    have hcases := depthChange_cases hne m
    rcases closingOffset?_cons_cases h with ⟨hm, hzero, -⟩ | ⟨-, i, hi, rfl⟩
    · have hchange : depthChange opening closing m = -1 := by grind
      omega
    · by_cases hclose : m = (closing, .code) ∧ depth' + depthChange opening closing m = 0
      · exact ⟨0, Nat.succ_pos i, closingOffset?_of_closes hclose.1 hclose.2⟩
      · -- One bracket changes the depth by at most one, and to zero only where it closes.
        have hpos' : 1 ≤ depth' + depthChange opening closing m := by grind
        obtain ⟨j, hj, hclosing⟩ := ih hi hpos' (by omega)
        refine ⟨j + 1, by omega, ?_⟩
        rw [closingOffset?_of_not_closes hclose, hclosing]
        rfl

theorem closingOffset?_take {n : Nat} (h : closingOffset? opening closing depth ms = some k)
    (hk : k < n) : closingOffset? opening closing depth (ms.take n) = some k := by
  rw [closingOffset?_eq_some_iff] at h ⊢
  refine ⟨(closesAt_take hk).2 h.1, fun j hj hclose => ?_⟩
  exact h.2 j hj ((closesAt_take (Nat.lt_trans hj hk)).1 hclose)

theorem closingOffset?_nested (hne : opening ≠ closing) (hpos : 1 ≤ depth)
    (h : closingOffset? opening closing depth ms = some k) {i : Nat} (hi : i < k)
    (hopen : ms[i]? = some (opening, .code)) :
    ∃ j, i + j < k ∧ closingOffset? opening closing 0 (ms.drop i) = some j := by
  induction ms generalizing depth k i with
  | nil => simp [closingOffset?] at h
  | cons m ms ih =>
    have hcases := depthChange_cases hne m
    rcases closingOffset?_cons_cases h with ⟨-, -, rfl⟩ | ⟨hclose, k', hk', rfl⟩
    · simp at hi
    cases i with
    | zero =>
      -- From zero the bracket goes to one, and from the depth before it to more than that.
      obtain rfl : m = (opening, .code) := by simpa using hopen
      have hm : depthChange opening closing (opening, .code) = 1 := by simp [depthChange]
      rw [hm] at hk'
      obtain ⟨j, hj, hclosing⟩ := closingOffset?_of_lt hne hk' (Int.le_refl 1) (by omega)
      refine ⟨j + 1, by omega, ?_⟩
      rw [List.drop_zero, closingOffset?_of_not_closes (by simp [hne]), hm, Int.zero_add, hclosing]
      rfl
    | succ i =>
      have hpos' : 1 ≤ depth + depthChange opening closing m := by grind
      have hi' : i < k' := by omega
      obtain ⟨j, hj, hclosing⟩ := ih hpos' hk' hi' (by simpa using hopen)
      exact ⟨j, by omega, hclosing⟩

end Closing

/-- The brace at one offset is closed by the brace at another: the first closing brace in code at
which the braces of the code from there on balance. -/
structure Closes (source : List Char) (start stop : Nat) : Prop where
  le : start ≤ stop
  closesAt : ClosesAt '{' '}' 0 ((marked source).drop start) (stop - start)
  first : ∀ k < stop - start, ¬ClosesAt '{' '}' 0 ((marked source).drop start) k

section Ends
variable {source : List Char} {start stop : Nat}

theorem closes_iff : Closes source start stop ↔
    start ≤ stop ∧ closingOffset? '{' '}' 0 ((marked source).drop start) = some (stop - start) := by
  rw [closingOffset?_eq_some_iff]
  exact ⟨fun h => ⟨h.le, h.closesAt, h.first⟩, fun h => ⟨h.1, h.2.1, h.2.2⟩⟩

theorem blockEnd_eq_ok_iff (h : (marked source)[start]? = some ('{', .code)) :
    blockEnd source start = .ok stop ↔ Closes source start stop := by
  rw [closes_iff, blockEnd, marked_drop h]
  cases hc : closingOffset? '{' '}' 0 ((marked source).drop start) with
  | none => simp
  | some k =>
    simp only [Except.ok.injEq, Option.some.injEq]
    omega

theorem blockEnd_eq_error_iff (h : (marked source)[start]? = some ('{', .code))
    (fault : UnbalancedBlock) :
    blockEnd source start = .error fault ↔
      (¬∃ stop, Closes source start stop) ∧ fault = ⟨lineAt source start⟩ := by
  have hok : (∃ stop, Closes source start stop) ↔ ∃ stop, blockEnd source start = .ok stop :=
    exists_congr fun stop => (blockEnd_eq_ok_iff h).symm
  rw [hok, blockEnd]
  cases closingOffset? '{' '}' 0 (marked (source.drop start)) with
  | none => simp [eq_comm]
  | some k => simp

end Ends

section Bodies
variable {source body : List Char} {offset : Nat}

theorem drop_eq_of_getElem? {α : Type} {l : List α} {a : α} {i : Nat} (h : l[i]? = some a) :
    l.drop i = a :: l.drop (i + 1) := by
  obtain ⟨hi, rfl⟩ := List.getElem?_eq_some_iff.1 h
  exact List.drop_eq_getElem_cons hi

theorem marked_brace (rest : List Char) :
    marked ('{' :: rest) = ('{', .code) :: marked rest := by
  simp [marked, step_code_eq]

theorem blockEnd_of_open (hopen : source[offset]? = some '{') :
    blockEnd source offset =
      match closingOffset? '{' '}' 1 (marked (source.drop (offset + 1))) with
      | some k => .ok (offset + 1 + k)
      | none => .error ⟨lineAt source offset⟩ := by
  rw [blockEnd, drop_eq_of_getElem? hopen, marked_brace, closingOffset?_of_opening (by decide)]
  cases closingOffset? '{' '}' 1 (marked (source.drop (offset + 1))) with
  | none => rfl
  | some k => simp only [Option.map_some, Nat.add_assoc, Nat.add_comm 1 k]

theorem block_eq_map (source : List Char) (offset : Nat) :
    block source offset = (blockEnd source offset).map fun stop =>
      (source.drop (offset + 1)).take (stop - (offset + 1)) := by
  rw [block]
  cases blockEnd source offset <;> rfl

/-- A block that has been cut out is read on its own as it is read after its opening brace, up to
the brace that closes it. -/
theorem marked_of_block (hopen : source[offset]? = some '{')
    (h : block source offset = .ok body) :
    ∃ k, closingOffset? '{' '}' 1 (marked (source.drop (offset + 1))) = some k ∧
      body = (source.drop (offset + 1)).take k ∧
      marked body = (marked (source.drop (offset + 1))).take k := by
  rw [block_eq_map, blockEnd_of_open hopen] at h
  cases hk : closingOffset? '{' '}' 1 (marked (source.drop (offset + 1))) with
  | none => simp [hk, Except.map] at h
  | some k =>
    simp only [hk, Except.map, Except.ok.injEq, Nat.add_sub_cancel_left] at h
    refine ⟨k, rfl, h.symm, ?_⟩
    generalize source.drop (offset + 1) = rest at hk h
    subst h
    have hbrace : rest[k]? = some '}' := getElem?_of_marked (closingOffset?_eq_some_iff.1 hk).1.1
    have hlength : (rest.take k).length = k :=
      List.length_take_of_le (Nat.le_of_lt (List.getElem?_eq_some_iff.1 hbrace).1)
    -- The text goes on with a closing brace, which is part of no delimiter.
    have happend := mark_append (c := '}') (by decide) (by decide) (by decide) .code
      (rest.take k) (rest.drop (k + 1))
    rw [← drop_eq_of_getElem? hbrace, List.take_append_drop] at happend
    have hmarked : (mark .code (rest.take k)).length = k := by rw [length_mark, hlength]
    rw [marked, marked, happend, List.take_left' hmarked]

/-- A brace in code that is closed nowhere after it. -/
def IsLeftOpen (ms : List Marked) (offset : Nat) : Prop :=
  ms[offset]? = some ('{', .code) ∧ closingOffset? '{' '}' 0 (ms.drop offset) = none

theorem openBrace?_eq_some {depth offset outermost i : Nat} {ms : List Marked}
    (h : openBrace? depth offset outermost ms = some i) :
    (0 < depth ∧ i = outermost ∧ closingOffset? '{' '}' depth ms = none) ∨
      ∃ j, i = offset + j ∧ IsLeftOpen ms j := by
  induction ms generalizing depth offset outermost with
  | nil =>
    have hdepth : depth ≠ 0 ∧ outermost = i := by simpa [openBrace?] using h
    exact .inl ⟨Nat.pos_of_ne_zero hdepth.1, hdepth.2.symm, rfl⟩
  | cons m ms ih =>
    have later : (∃ j, i = offset + 1 + j ∧ IsLeftOpen ms j) →
        ∃ j, i = offset + j ∧ IsLeftOpen (m :: ms) j := by
      rintro ⟨j, hi, hj⟩
      exact ⟨j + 1, by omega, hj⟩
    rw [openBrace?] at h
    rcases depthChange_cases (by decide : '{' ≠ '}') m with ⟨hm, hd⟩ | ⟨hm, hd⟩ | ⟨ho, hc, hd⟩
    · rw [if_pos hm] at h
      rcases ih h with ⟨-, hi, hnone⟩ | hlater
      · have hcons : closingOffset? '{' '}' depth (m :: ms) = none :=
          closingOffset?_cons_none (by simp [hm]) (by rw [hd]; exact_mod_cast hnone)
        by_cases hdepth : depth = 0
        · -- From depth zero it is this brace.
          subst hdepth
          exact .inr ⟨0, by simpa using hi, by simp [hm], hcons⟩
        · exact .inl ⟨Nat.pos_of_ne_zero hdepth, by simpa [hdepth] using hi, hcons⟩
      · exact .inr (later hlater)
    · rw [if_neg (by simp [hm]), if_pos hm] at h
      rcases ih h with ⟨hpos, hi, hnone⟩ | hlater
      · have hafter : ((depth - 1 : Nat) : Int) = depth + depthChange '{' '}' m := by omega
        exact .inl ⟨by omega, hi, closingOffset?_cons_none (by omega) (hafter ▸ hnone)⟩
      · exact .inr (later hlater)
    · rw [if_neg ho, if_neg hc] at h
      rcases ih h with ⟨hpos, hi, hnone⟩ | hlater
      · refine .inl ⟨hpos, hi, closingOffset?_cons_none (by simp [hc]) ?_⟩
        rwa [hd, Int.add_zero]
      · exact .inr (later hlater)

theorem blockEnd_of_maskNested {fault : UnbalancedBlock} (h : maskNested body = .error fault) :
    ∃ i, (marked body)[i]? = some ('{', .code) ∧ blockEnd body i = .error fault := by
  rw [maskNested] at h
  cases hopen : openBrace? 0 0 0 (marked body) with
  | none => simp [hopen] at h
  | some i =>
    simp only [hopen, Except.error.injEq] at h
    rcases openBrace?_eq_some hopen with ⟨hpos, -⟩ | ⟨j, hij, hbrace, hnone⟩
    · simp at hpos
    · obtain rfl : i = j := by omega
      refine ⟨i, hbrace, ?_⟩
      rw [blockEnd, marked_drop hbrace, hnone, ← h]

theorem blockEnd_of_nested (hopen : source[offset]? = some '{')
    (h : block source offset = .ok body) {i : Nat} (hi : (marked body)[i]? = some ('{', .code)) :
    ∃ stop, blockEnd body i = .ok stop := by
  obtain ⟨k, hk, -, hbody⟩ := marked_of_block hopen h
  have hik : i < k := by
    have := (List.getElem?_eq_some_iff.1 hi).1
    rw [hbody, List.length_take] at this
    omega
  have hopen' : (marked (source.drop (offset + 1)))[i]? = some ('{', .code) := by
    rwa [hbody, List.getElem?_take_of_lt hik] at hi
  obtain ⟨j, hj, hclosing⟩ := closingOffset?_nested (by decide) (Int.le_refl 1) hk hik hopen'
  have hdrop : closingOffset? '{' '}' 0 ((marked body).drop i) = some j := by
    rw [hbody, List.drop_take]
    exact closingOffset?_take hclosing (by omega)
  rw [blockEnd, marked_drop hi, hdrop]
  exact ⟨i + j, rfl⟩

end Bodies

section Masked
variable {keep : Bool} {source body : List Char} {offset : Nat}

theorem depthChange_remark {opening closing : Char} (ho : opening ≠ ' ' ∧ opening ≠ '\n')
    (hc : closing ≠ ' ' ∧ closing ≠ '\n') (m : Marked) :
    depthChange opening closing (remark keep m) = depthChange opening closing m := by
  obtain ⟨c, r⟩ := m
  cases r <;> cases keep <;> simp [depthChange, remark, shown, Region.isKept] <;> grind

theorem closingOffset?_remark {opening closing : Char} (ho : opening ≠ ' ' ∧ opening ≠ '\n')
    (hc : closing ≠ ' ' ∧ closing ≠ '\n') (depth : Int) (ms : List Marked) :
    closingOffset? opening closing depth (ms.map (remark keep)) =
      closingOffset? opening closing depth ms := by
  induction ms generalizing depth with
  | nil => rfl
  | cons m ms ih =>
    simp only [List.map_cons, closingOffset?, depthChange_remark ho hc,
      remark_eq_code_iff hc.1 hc.2, ih]

theorem memberText_mask (body : List Char) : memberText (mask true body) = memberText body := by
  rw [memberText, mask_mask, memberText, Bool.and_self]

theorem blockEnd_mask (h : (marked source)[offset]? = some ('{', .code)) :
    blockEnd (mask keep source) offset = blockEnd source offset := by
  have h' : (marked (mask keep source))[offset]? = some ('{', .code) :=
    (marked_mask_getElem? (by decide) (by decide) source offset).2 h
  rw [blockEnd, blockEnd, marked_drop h', marked_mask, ← List.map_drop, marked_drop h,
    closingOffset?_remark (by decide) (by decide), lineAt_mask]

/-- The blocks nested in a body can be blanked, before its comments are or after that. -/
theorem maskNested_of_block (hopen : source[offset]? = some '{')
    (h : block source offset = .ok body) {text : List Char}
    (htext : text = body ∨ text = mask true body) :
    (∃ blanked, maskNested text = .ok blanked) ∧
      ∀ i, (marked text)[i]? = some ('{', .code) → ∃ stop, blockEnd text i = .ok stop := by
  have hnested : ∀ i, (marked text)[i]? = some ('{', .code) →
      ∃ stop, blockEnd text i = .ok stop := by
    intro i hi
    rcases htext with rfl | rfl
    · exact blockEnd_of_nested hopen h hi
    · rw [marked_mask_getElem? (by decide) (by decide)] at hi
      rw [blockEnd_mask hi]
      exact blockEnd_of_nested hopen h hi
  refine ⟨?_, hnested⟩
  cases hb : maskNested text with
  | ok blanked => exact ⟨blanked, rfl⟩
  | error fault =>
    obtain ⟨i, hi, hend⟩ := blockEnd_of_maskNested hb
    obtain ⟨stop, hstop⟩ := hnested i hi
    simp [hend] at hstop

theorem block_mask (h : (marked source)[offset]? = some ('{', .code)) :
    block (mask keep source) offset = (block source offset).map (mask keep) := by
  have hopen := getElem?_of_marked h
  rw [block_eq_map, block_eq_map, blockEnd_mask h]
  cases he : blockEnd source offset with
  | error fault => rfl
  | ok stop =>
    have hb : block source offset =
        .ok ((source.drop (offset + 1)).take (stop - (offset + 1))) := by
      rw [block_eq_map, he]
      rfl
    obtain ⟨k, hk, -, hbody⟩ := marked_of_block hopen hb
    obtain rfl : offset + 1 + k = stop := by
      rw [blockEnd_of_open hopen, hk] at he
      exact Except.ok.inj he
    rw [Nat.add_sub_cancel_left] at hbody
    simp only [Except.map, Nat.add_sub_cancel_left, Except.ok.injEq]
    rw [mask.eq_def keep (List.take _ _), hbody, marked_drop_succ h, List.map_take, List.map_drop,
      mask]

end Masked

end KotlinSchema.Source
