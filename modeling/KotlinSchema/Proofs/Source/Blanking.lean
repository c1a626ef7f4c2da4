import KotlinSchema.Proofs.Source.Matching
import KotlinSchema.Proofs.Source.Stretches

/-! Reading a text whose nested blocks have been blanked. What stands outside of the blocks reads as
it does in the text itself, and what has been blanked reads as code. -/

namespace KotlinSchema.Source
open Text

/-- A character inside of blocks as it is shown: a line end, the brace that closes the outermost
block, or a blank. -/
def veil (depth : Nat) (m : Marked) : Char :=
  if m = ('{', .code) then ' '
  else if m = ('}', .code) then (if depth ≤ 1 then '}' else ' ')
  else if m.1 = '\n' then '\n' else ' '

def veiled : Nat → List Marked → List Marked
  | _, [] => []
  | depth, m :: rest =>
    (if depth = 0 then m else (veil depth m, .code)) :: veiled (openBlocks depth [m]) rest

def outside : Nat → List Marked → List Marked
  | _, [] => []
  | depth, m :: rest =>
    (if depth = 0 then [m] else []) ++ outside (openBlocks depth [m]) rest

section Reading
variable {depth : Nat} {m : Marked} {ms : List Marked} {mode : Mode} {source body text : List Char}

theorem blankNested_cons (depth : Nat) (m : Marked) (ms : List Marked) :
    blankNested depth (m :: ms) =
      (if depth = 0 then m.1 else veil depth m) :: blankNested (openBlocks depth [m]) ms := by
  simp only [blankNested, veil, openBlocks]
  grind

theorem veil_cases (depth : Nat) (m : Marked) :
    veil depth m = ' ' ∨ veil depth m = '\n' ∨ veil depth m = '}' := by
  simp only [veil]
  grind

theorem step_veil (depth : Nat) (m : Marked) (rest : List Char) :
    step .code (veil depth m) rest = (.code, .code) := by
  rcases veil_cases depth m with h | h | h <;> simp [h, step_code_eq]

theorem looksLike_blankNested (mode : Mode) (source : List Char) :
    LooksLike (blankNested 0 (mark mode source)) source := by
  rcases source with _ | ⟨c, _ | ⟨d, rest⟩⟩
  · exact ⟨Iff.rfl, Iff.rfl, Iff.rfl, Iff.rfl⟩
  · simp only [mark_cons, mark_nil, blankNested_zero, blankNested]
    exact ⟨Iff.rfl, Iff.rfl, Iff.rfl, Iff.rfl⟩
  · simp only [mark_cons, blankNested_zero]
    refine ⟨Iff.rfl, Iff.rfl, Iff.rfl, ?_⟩
    by_cases hc : c = '"'
    · subst hc
      simp [openBlocks, blankNested_zero]
    · simp [hc]

/-- Outside of blocks the blanked text is read in the mode in which the text is read, and inside of
them as code. -/
theorem mark_blankNested (depth : Nat) (mode : Mode) (source : List Char) :
    mark (if depth = 0 then mode else .code) (blankNested depth (mark mode source)) =
      veiled depth (mark mode source) := by
  induction source generalizing depth mode with
  | nil => rfl
  | cons c rest ih =>
    generalize hstep : step mode c rest = taken
    obtain ⟨r, next⟩ := taken
    have hnext := ih (openBlocks depth [(c, r)]) next
    rw [mark_cons, hstep, blankNested_cons, veiled]
    have hcode (h : r = .code) : mode = .code ∧ next = .code := by
      have hregion : (step mode c rest).1 = .code := by rw [hstep, h]
      have hmodes := step_region_code hregion
      rwa [hstep] at hmodes
    by_cases hdepth : depth = 0
    · subst hdepth
      have hread : step mode c (blankNested (openBlocks 0 [(c, r)]) (mark next rest)) =
          (r, if openBlocks 0 [(c, r)] = 0 then next else .code) := by
        by_cases hopen : (c, r) = ('{', .code)
        · obtain ⟨rfl, rfl⟩ := Prod.mk.inj hopen
          rw [(hcode rfl).1]
          simp [step_code_eq, openBlocks]
        · have hzero : openBlocks 0 [(c, r)] = 0 := by simp [openBlocks, hopen]
          rw [hzero, if_pos rfl, step_congr (looksLike_blankNested next rest), hstep]
      rw [if_pos rfl, if_pos rfl, if_pos rfl, mark_cons, hread, hnext]
    · have hmode : (if openBlocks depth [(c, r)] = 0 then next else .code) = .code := by
        split
        · rename_i hzero
          refine (hcode ?_).2
          simp only [openBlocks] at hzero
          grind
        · rfl
      rw [if_neg hdepth, if_neg hdepth, if_neg hdepth, mark_cons, step_veil, ← hmode, hnext]

theorem marked_memberText (h : memberText body = .ok text) :
    marked text = veiled 0 ((marked body).map (remark true)) := by
  rw [eq_of_memberText h, ← marked_mask]
  exact mark_blankNested 0 .code _

theorem drop_veiled (depth n : Nat) (ms : List Marked) :
    (veiled depth ms).drop n = veiled (openBlocks depth (ms.take n)) (ms.drop n) := by
  induction n generalizing depth ms with
  | zero => rfl
  | succ n ih =>
    cases ms with
    | nil => rfl
    | cons m ms =>
      rw [veiled, List.drop_succ_cons, ih, List.take_succ_cons, List.drop_succ_cons,
        ← openBlocks_append, List.singleton_append]

theorem getElem?_veiled {n : Nat} (h : openBlocks depth (ms.take n) = 0) :
    (veiled depth ms)[n]? = ms[n]? := by
  rw [← Nat.add_zero n, ← List.getElem?_drop, ← List.getElem?_drop, drop_veiled, h]
  cases ms.drop n with
  | nil => rfl
  | cons m rest => rfl

theorem getElem?_of_veiled {n : Nat} {c : Char} {r : Region}
    (hc : c ≠ ' ' ∧ c ≠ '\n' ∧ c ≠ '}') (h : (veiled depth ms)[n]? = some (c, r)) :
    ms[n]? = some (c, r) ∧ openBlocks depth (ms.take n) = 0 := by
  by_cases hopen : openBlocks depth (ms.take n) = 0
  · exact ⟨getElem?_veiled hopen ▸ h, hopen⟩
  · rw [← Nat.add_zero n, ← List.getElem?_drop, drop_veiled] at h
    cases hrest : ms.drop n with
    | nil => simp [hrest, veiled] at h
    | cons m rest =>
      rw [hrest, veiled, if_neg hopen, List.getElem?_cons_zero, Option.some.injEq] at h
      obtain ⟨rfl, -⟩ := Prod.mk.inj h
      rcases veil_cases (openBlocks depth (ms.take n)) m with hveil | hveil | hveil <;>
        simp [hveil] at hc

theorem getElem?_marked_memberText (h : memberText body = .ok text) {n : Nat}
    (hopen : openBlocks 0 ((marked body).take n) = 0) :
    (marked text)[n]? = (marked body)[n]?.map (remark true) := by
  rw [marked_memberText h, getElem?_veiled, List.getElem?_map]
  rw [← List.map_take, openBlocks_remark, hopen]

theorem take_veiled (depth n : Nat) (ms : List Marked) :
    (veiled depth ms).take n = veiled depth (ms.take n) := by
  induction n generalizing depth ms with
  | zero => rfl
  | succ n ih =>
    cases ms with
    | nil => rfl
    | cons m ms => rw [veiled, List.take_succ_cons, ih, List.take_succ_cons, veiled]

theorem balance_veiled (depth : Nat) (ms : List Marked) :
    balance '(' ')' (veiled depth ms) = balance '(' ')' (outside depth ms) := by
  induction ms generalizing depth with
  | nil => rfl
  | cons m ms ih =>
    rw [veiled, outside, balance_cons, ih]
    by_cases hdepth : depth = 0
    · rw [if_pos hdepth, if_pos hdepth, List.singleton_append, balance_cons]
    · have hveil : veil depth m ≠ '(' ∧ veil depth m ≠ ')' := by
        simp only [veil]
        grind
      rw [if_neg hdepth, if_neg hdepth, List.nil_append, depthChange, if_neg hveil.1,
        if_neg hveil.2, Int.zero_add]

theorem outside_append (depth : Nat) (ms ns : List Marked) :
    outside depth (ms ++ ns) = outside depth ms ++ outside (openBlocks depth ms) ns := by
  induction ms generalizing depth with
  | nil => rfl
  | cons m ms ih =>
    rw [List.cons_append, outside, outside, ih, List.append_assoc, ← openBlocks_append,
      List.singleton_append]

theorem outside_remark (depth : Nat) (ms : List Marked) :
    outside depth (ms.map (remark true)) = (outside depth ms).map (remark true) := by
  induction ms generalizing depth with
  | nil => rfl
  | cons m ms ih =>
    rw [List.map_cons, outside, outside, ih, ← List.map_singleton, openBlocks_remark,
      List.map_append]
    split <;> rfl

theorem balance_remark (ms : List Marked) :
    balance '(' ')' (ms.map (remark true)) = balance '(' ')' ms := by
  induction ms with
  | nil => rfl
  | cons m ms ih =>
    rw [List.map_cons, balance_cons, balance_cons, ih, depthChange_remark (by decide) (by decide)]

/-- The depth of parentheses in code at an offset, those inside of nested blocks not counted. -/
def parenDepth (body : List Char) (offset : Nat) : Int :=
  balance '(' ')' (outside 0 ((marked body).take offset))

theorem parenDepth_eq (h : memberText body = .ok text) (offset : Nat) :
    parenDepth body offset = balance '(' ')' ((marked text).take offset) := by
  rw [marked_memberText h, take_veiled, balance_veiled, ← List.map_take, outside_remark,
    balance_remark, parenDepth]

end Reading

section Appended
variable {depth : Nat} {ms : List Marked}  {body : List Char}

theorem openBrace?_eq_none_iff (depth offset outermost : Nat) (ms : List Marked) :
    openBrace? depth offset outermost ms = none ↔ openBlocks depth ms = 0 := by
  induction ms generalizing depth offset outermost with
  | nil => simp [openBrace?, openBlocks]
  | cons m ms ih =>
    rw [openBrace?, openBlocks]
    split
    · exact ih ..
    · split <;> exact ih ..

theorem exists_memberText_iff (body : List Char) :
    (∃ text, memberText body = .ok text) ↔ openBlocks 0 (marked body) = 0 := by
  have hopen : openBrace? 0 0 0 (marked (mask true body)) = none ↔ openBlocks 0 (marked body) = 0 := by
    rw [openBrace?_eq_none_iff, marked_mask, openBlocks_remark]
  rw [← hopen, memberText, maskNested]
  cases openBrace? 0 0 0 (marked (mask true body)) <;> simp

theorem blankNested_append (depth : Nat) (ms ns : List Marked) :
    blankNested depth (ms ++ ns) = blankNested depth ms ++ blankNested (openBlocks depth ms) ns := by
  induction ms generalizing depth with
  | nil => rfl
  | cons m ms ih =>
    rw [List.cons_append, blankNested_cons, blankNested_cons, ih, List.cons_append,
      ← openBlocks_append, List.singleton_append]

theorem length_veiled (depth : Nat) (ms : List Marked) : (veiled depth ms).length = ms.length := by
  induction ms generalizing depth with
  | nil => rfl
  | cons m ms ih => rw [veiled, List.length_cons, ih, List.length_cons]

theorem veiled_append (depth : Nat) (ms ns : List Marked) :
    veiled depth (ms ++ ns) = veiled depth ms ++ veiled (openBlocks depth ms) ns := by
  induction ms generalizing depth with
  | nil => rfl
  | cons m ms ih =>
    rw [List.cons_append, veiled, veiled, ih, List.cons_append, ← openBlocks_append,
      List.singleton_append]

theorem openBlocks_eq_balance (h : ∀ n, 0 ≤ depth + balance '{' '}' (ms.take n)) :
    (openBlocks depth ms : Int) = depth + balance '{' '}' ms := by
  induction ms generalizing depth with
  | nil => simp [openBlocks, balance]
  | cons m ms ih =>
    have hstep : (openBlocks depth [m] : Int) = depth + depthChange '{' '}' m := by
      have hone : 0 ≤ (depth : Int) + (depthChange '{' '}' m + 0) := h 1
      rcases depthChange_cases (by decide : '{' ≠ '}') m with ⟨rfl, hd⟩ | ⟨rfl, hd⟩ | ⟨ho, hc, hd⟩
      · have hopen : openBlocks depth [('{', .code)] = depth + 1 := rfl
        omega
      · have hclose : openBlocks depth [('}', .code)] = depth - 1 := rfl
        omega
      · have hsame : openBlocks depth [m] = depth := by simp [openBlocks, ho, hc]
        omega
    have hrest : ∀ n, 0 ≤ ((openBlocks depth [m] : Nat) : Int) + balance '{' '}' (ms.take n) := by
      intro n
      have hn := h (n + 1)
      rw [List.take_succ_cons, balance_cons] at hn
      omega
    rw [← List.singleton_append, openBlocks_append, ih hrest, hstep, List.singleton_append,
      balance_cons, Int.add_assoc]

end Appended

end KotlinSchema.Source
