import KotlinSchema.Extraction
import KotlinSchema.Proofs.Source.Blanking

/-! Nested blocks and the members of a body. Blanking shows of an outermost block its braces and its
line ends only, so what else such blocks hold has no part in what is read of a body. -/

namespace KotlinSchema.Source
open Text

/-- The number of blocks that are open before an offset. -/
def blockDepth (body : List Char) (offset : Nat) : Nat := openBlocks 0 ((marked body).take offset)

/-- The braces of a block that no other block holds. -/
structure IsBlock (body : List Char) (start stop : Nat) : Prop where
  outermost : blockDepth body start = 0
  brace : (marked body)[start]? = some ('{', .code)
  closes : Closes body start stop

section Depth
variable {body : List Char} {start stop n : Nat} {m : Marked} {ms : List Marked}

theorem blockDepth_add (body : List Char) (n k : Nat) :
    blockDepth body (n + k) = openBlocks (blockDepth body n) (((marked body).drop n).take k) := by
  rw [blockDepth, List.take_add, openBlocks_append, blockDepth]

theorem blockDepth_succ (h : (marked body)[n]? = some m) :
    blockDepth body (n + 1) = openBlocks (blockDepth body n) [m] := by
  rw [blockDepth_add, drop_eq_of_getElem? h, List.take_succ_cons, List.take_zero]

theorem balance_nonneg_of_not_closed {k : Nat}
    (h : ∀ j < k, closingOffset? '{' '}' 1 ms ≠ some j) : 0 ≤ balance '{' '}' (ms.take k) := by
  by_contra hneg
  cases k with
  | zero => simp [balance] at hneg
  | succ k =>
    have hlost : 1 + balance '{' '}' (ms.take (k + 1)) ≤ 0 := by omega
    obtain ⟨j, hj, hclosing⟩ := exists_closingOffset?_le (by decide) (Int.le_refl 1) hlost
    exact h j (by omega) hclosing

theorem openBlocks_of_not_closed {k : Nat}
    (h : ∀ j < k, closingOffset? '{' '}' 1 ms ≠ some j) :
    (openBlocks 1 (ms.take k) : Int) = 1 + balance '{' '}' (ms.take k) := by
  refine openBlocks_eq_balance fun n => ?_
  have hbalance : 0 ≤ balance '{' '}' (ms.take (min n k)) :=
    balance_nonneg_of_not_closed fun j hj => h j (by omega)
  rw [List.take_take]
  omega

theorem IsBlock.exists_closingOffset? (h : IsBlock body start stop) :
    ∃ k, stop = start + 1 + k ∧
      closingOffset? '{' '}' 1 ((marked body).drop (start + 1)) = some k ∧
      ∀ i ≤ k, (blockDepth body (start + 1 + i) : Int) =
        1 + balance '{' '}' (((marked body).drop (start + 1)).take i) ∧
          0 < blockDepth body (start + 1 + i) := by
  obtain ⟨k, hstop, hk⟩ := (closes_iff_of_open h.brace).1 h.closes
  refine ⟨k, hstop, hk, fun i hi => ?_⟩
  have hnone : ∀ j < i, closingOffset? '{' '}' 1 ((marked body).drop (start + 1)) ≠ some j := by
    intro j hj
    rw [hk, Ne, Option.some.injEq]
    omega
  have hone : blockDepth body (start + 1) = 1 := by
    rw [blockDepth_succ h.brace, h.outermost]
    rfl
  have hdepth := openBlocks_of_not_closed hnone
  have hnonneg := balance_nonneg_of_not_closed hnone
  rw [blockDepth_add, hone]
  omega

theorem IsBlock.blockDepth_pos (h : IsBlock body start stop) (hlow : start < n) (hhigh : n ≤ stop) :
    0 < blockDepth body n := by
  obtain ⟨k, rfl, -, hdepth⟩ := h.exists_closingOffset?
  obtain ⟨i, rfl⟩ := Nat.exists_eq_add_of_le (Nat.succ_le_of_lt hlow)
  exact (hdepth i (by omega)).2

theorem IsBlock.lt (h : IsBlock body start stop) : start < stop := by
  obtain ⟨k, rfl, -⟩ := h.exists_closingOffset?
  omega

theorem IsBlock.blockDepth_stop (h : IsBlock body start stop) : blockDepth body stop = 1 := by
  obtain ⟨k, rfl, hk, hdepth⟩ := h.exists_closingOffset?
  obtain ⟨hbrace, hzero⟩ := (closingOffset?_eq_some_iff.1 hk).1
  have htake : ((marked body).drop (start + 1)).take (k + 1) =
      ((marked body).drop (start + 1)).take k ++ [('}', .code)] := by
    rw [List.take_add, drop_eq_of_getElem? hbrace]
    rfl
  have hchange : balance '{' '}' [('}', .code)] = -1 := by decide
  rw [htake, balance_append, hchange] at hzero
  have hlast := (hdepth k (Nat.le_refl k)).1
  omega

theorem IsBlock.blockDepth_succ_stop (h : IsBlock body start stop) :
    blockDepth body (stop + 1) = 0 := by
  rw [blockDepth_succ h.closes.brace, h.blockDepth_stop]
  rfl

end Depth

/-- Two bodies of one shape that differ inside of blocks only, which are blocks of both. -/
structure DifferInBlocks (a b : List Char) : Prop where
  length_eq : a.length = b.length
  newline_iff : ∀ n : Nat, a[n]? = some '\n' ↔ b[n]? = some '\n'
  inside : ∀ n : Nat, a[n]? ≠ b[n]? →
    ∃ start stop, start < n ∧ n < stop ∧ IsBlock a start stop ∧ IsBlock b start stop

/-- An offset behind the opening brace of a block of two bodies, and not behind its closing one. -/
def IsShared (a b : List Char) (n : Nat) : Prop :=
  ∃ start stop, start < n ∧ n ≤ stop ∧ IsBlock a start stop ∧ IsBlock b start stop

/-- Two bodies are read alike from an offset on, as far as the text goes. -/
structure Agree (a b : List Char) (n : Nat) : Prop where
  mode : modeAt .code a n = modeAt .code b n
  depth : blockDepth a n = blockDepth b n

section Agreement
variable {a b : List Char} {start stop n : Nat} {c : Char}

theorem getElem?_marked {rest : List Char} (h : a.drop n = c :: rest) :
    (marked a)[n]? = some (c, (step (modeAt .code a n) c rest).1) := by
  rw [← Nat.add_zero n, ← List.getElem?_drop, marked, drop_mark, h, mark_cons,
    List.getElem?_cons_zero, Nat.add_zero]

theorem modeAt_of_code (h : (marked a)[n]? = some (c, .code)) :
    modeAt .code a n = .code ∧ modeAt .code a (n + 1) = .code := by
  obtain ⟨rest, hdrop, hstep⟩ := drop_eq_of_marked h
  obtain ⟨hmode, hnext⟩ := step_region_code hstep
  exact ⟨hmode, by rw [modeAt_succ hdrop, hnext]⟩

theorem looksLike_of_head {x y : List Char} (hhead : x.head? = y.head?)
    (hnext : x[1]? = y[1]? ∨ x.head? = some '{') : LooksLike x y := by
  refine ⟨by rw [hhead], by rw [hhead], by rw [hhead], ?_⟩
  rcases x with _ | ⟨c, _ | ⟨d, x⟩⟩ <;> rcases y with _ | ⟨c', _ | ⟨d', y⟩⟩ <;> simp_all
  grind

theorem agree_succ_stop (ha : IsBlock a start stop) (hb : IsBlock b start stop) :
    Agree a b (stop + 1) where
  mode := by rw [(modeAt_of_code ha.closes.brace).2, (modeAt_of_code hb.closes.brace).2]
  depth := by rw [ha.blockDepth_succ_stop, hb.blockDepth_succ_stop]

theorem DifferInBlocks.isShared (h : DifferInBlocks a b) (hne : a[n]? ≠ b[n]?) :
    IsShared a b n := by
  obtain ⟨start, stop, hlow, hhigh, hblocks⟩ := h.inside n hne
  exact ⟨start, stop, hlow, hhigh.le, hblocks⟩

theorem DifferInBlocks.step_eq (h : DifferInBlocks a b) (hout : ¬IsShared a b n)
    (hstart : ¬∃ stop, IsBlock a n stop ∧ IsBlock b n stop) (mode : Mode) (c : Char) :
    step mode c (a.drop (n + 1)) = step mode c (b.drop (n + 1)) := by
  have hbegins : ∀ k, n < k → a[k]? ≠ b[k]? →
      ∃ start stop, n < start ∧ start < k ∧ IsBlock a start stop ∧ IsBlock b start stop := by
    intro k hk hne
    obtain ⟨start, stop, hlow, hhigh, hblocks⟩ := h.inside k hne
    refine ⟨start, stop, ?_, hlow, hblocks⟩
    rcases Nat.lt_trichotomy n start with hlt | rfl | hgt
    · exact hlt
    · exact absurd ⟨stop, hblocks⟩ hstart
    · exact absurd ⟨start, stop, hgt, by omega, hblocks⟩ hout
  refine step_congr (looksLike_of_head ?_ ?_) mode c
  · rw [List.head?_drop, List.head?_drop]
    by_contra hne
    obtain ⟨start, stop, hlow, hhigh, -⟩ := hbegins (n + 1) (by omega) hne
    omega
  · rw [List.head?_drop, List.getElem?_drop, List.getElem?_drop, or_iff_not_imp_left]
    intro hne
    obtain ⟨start, stop, hlow, hhigh, ha, -⟩ := hbegins (n + 1 + 1) (by omega) hne
    obtain rfl : start = n + 1 := by omega
    exact getElem?_of_marked ha.brace

theorem Agree.marked_eq (hagree : Agree a b n) (h : DifferInBlocks a b) (hout : ¬IsShared a b n) :
    (marked a)[n]? = (marked b)[n]? := by
  have hsame : a[n]? = b[n]? := by
    by_contra hne
    exact hout (h.isShared hne)
  by_cases hstart : ∃ stop, IsBlock a n stop ∧ IsBlock b n stop
  · obtain ⟨stop, ha, hb⟩ := hstart
    rw [ha.brace, hb.brace]
  · cases hc : a[n]? with
    | none =>
      rw [List.getElem?_eq_none_iff.2, List.getElem?_eq_none_iff.2]
      · simpa [hc] using hsame.symm
      · simpa using hc
    | some c =>
      rw [getElem?_marked (drop_eq_of_getElem? hc),
        getElem?_marked (drop_eq_of_getElem? (hsame ▸ hc)), hagree.mode, h.step_eq hout hstart]

/-- Both bodies are read alike from every offset that is not inside of their blocks. -/
theorem agree_or_isShared (h : DifferInBlocks a b) {n : Nat} (hn : n ≤ a.length) :
    IsShared a b n ∨ Agree a b n := by
  induction n with
  | zero => exact .inr ⟨by rw [modeAt, modeAt], rfl⟩
  | succ n ih =>
    by_cases hshared : IsShared a b n
    · obtain ⟨start, stop, hlow, hhigh, ha, hb⟩ := hshared
      rcases Nat.lt_or_eq_of_le hhigh with hlt | rfl
      · exact .inl ⟨start, stop, by omega, hlt, ha, hb⟩
      · exact .inr (agree_succ_stop ha hb)
    · have hagree := (ih (by omega)).resolve_left hshared
      by_cases hstart : ∃ stop, IsBlock a n stop ∧ IsBlock b n stop
      · obtain ⟨stop, ha, hb⟩ := hstart
        exact .inl ⟨n, stop, Nat.lt_succ_self n, ha.lt, ha, hb⟩
      · right
        have hmarked := hagree.marked_eq h hshared
        obtain ⟨c, hc⟩ : ∃ c, a[n]? = some c := ⟨a[n], List.getElem?_eq_getElem hn⟩
        have hc' : b[n]? = some c := by
          by_contra hne
          exact hshared (h.isShared (hc ▸ Ne.symm hne))
        have hdrop := drop_eq_of_getElem? hc
        have hdrop' := drop_eq_of_getElem? hc'
        constructor
        · rw [modeAt_succ hdrop, modeAt_succ hdrop', hagree.mode, h.step_eq hshared hstart]
        · rw [blockDepth_succ (getElem?_marked hdrop),
            blockDepth_succ (hmarked ▸ getElem?_marked hdrop), hagree.depth]

end Agreement

section Blanking
variable {depth depth' n : Nat} {m : Marked} {ms ns : List Marked} {a b body text : List Char}

theorem openBrace?_cons (depth offset outermost : Nat) (m : Marked) (ms : List Marked) :
    openBrace? depth offset outermost (m :: ms) =
      openBrace? (openBlocks depth [m]) (offset + 1)
        (if m = ('{', .code) ∧ depth = 0 then offset else outermost) ms := by
  simp only [openBrace?, openBlocks]
  grind

theorem eq_brace_of_openBlocks (h : openBlocks 0 [m] ≠ 0) : m = ('{', .code) := by
  by_contra hm
  exact h (by simp [openBlocks, hm])

theorem openBrace?_congr (hlength : ms.length = ns.length)
    (h : ∀ n ≤ ms.length, openBlocks depth (ms.take n) = 0 ↔ openBlocks depth' (ns.take n) = 0)
    (offset : Nat) {outermost outermost' : Nat} (houtermost : depth ≠ 0 → outermost = outermost') :
    openBrace? depth offset outermost ms = openBrace? depth' offset outermost' ns := by
  induction ms generalizing depth depth' offset outermost outermost' ns with
  | nil =>
    obtain rfl : ns = [] := List.eq_nil_of_length_eq_zero hlength.symm
    have hdepth : depth = 0 ↔ depth' = 0 := h 0 (Nat.le_refl 0)
    by_cases hzero : depth = 0
    · rw [openBrace?, openBrace?, if_pos hzero, if_pos (hdepth.1 hzero)]
    · rw [openBrace?, openBrace?, if_neg hzero, if_neg (mt hdepth.2 hzero), houtermost hzero]
  | cons m ms ih =>
    obtain ⟨m', ns, rfl⟩ := List.exists_cons_of_ne_nil
      (List.ne_nil_of_length_pos (l := ns) (by rw [← hlength]; simp))
    have hdepth : depth = 0 ↔ depth' = 0 := h 0 (Nat.zero_le _)
    have hnext : ∀ n ≤ ms.length, openBlocks (openBlocks depth [m]) (ms.take n) = 0 ↔
        openBlocks (openBlocks depth' [m']) (ns.take n) = 0 := by
      intro n hn
      rw [← openBlocks_append, ← openBlocks_append]
      exact h (n + 1) (Nat.succ_le_succ hn)
    rw [openBrace?_cons, openBrace?_cons]
    refine ih (by simpa using hlength) hnext (offset + 1) fun hopen => ?_
    by_cases hzero : depth = 0
    · have hzero' := hdepth.1 hzero
      have hopen' : openBlocks depth' [m'] ≠ 0 := mt (hnext 0 (Nat.zero_le _)).2 hopen
      rw [hzero] at hopen
      rw [hzero'] at hopen'
      rw [if_pos ⟨eq_brace_of_openBlocks hopen, hzero⟩,
        if_pos ⟨eq_brace_of_openBlocks hopen', hzero'⟩]
    · rw [if_neg (by simp [hzero]), if_neg (by simp [mt hdepth.2 hzero]), houtermost hzero]

theorem getElem?_blankNested_eq (depth n : Nat) (ms : List Marked) :
    (blankNested depth ms)[n]? = ms[n]?.map fun m =>
      if openBlocks depth (ms.take n) = 0 then m.1 else veil (openBlocks depth (ms.take n)) m := by
  rw [← Nat.add_zero n, ← List.getElem?_drop, ← List.getElem?_drop, drop_blankNested, Nat.add_zero]
  cases ms.drop n with
  | nil => rfl
  | cons m rest => rw [blankNested_cons]; rfl

def blankOf (c : Char) : Char := if c = '\n' then '\n' else ' '

theorem blankOf_eq_newline_iff {c : Char} : blankOf c = '\n' ↔ c = '\n' := by
  simp [blankOf]

theorem veil_of_open (hopen : depth ≠ 0) (hstays : openBlocks depth [m] ≠ 0) :
    veil depth m = blankOf m.1 := by
  simp only [openBlocks] at hstays
  simp only [veil, blankOf]
  grind

theorem getElem?_marked_map (body : List Char) (n : Nat) :
    (marked body)[n]?.map Prod.fst = body[n]? := by
  rw [← List.getElem?_map, marked, map_fst_mark]

theorem IsBlock.shows_inside {start stop : Nat} (h : IsBlock body start stop) (hlow : start < n)
    (hhigh : n < stop) :
    (blankNested 0 (marked body))[n]? = body[n]?.map blankOf := by
  rw [getElem?_blankNested_eq, ← getElem?_marked_map, Option.map_map]
  cases hm : (marked body)[n]? with
  | none => rfl
  | some m =>
    have hopen := (h.blockDepth_pos hlow hhigh.le).ne'
    have hstays := (h.blockDepth_pos (Nat.lt_succ_of_lt hlow) hhigh).ne'
    rw [blockDepth_succ hm] at hstays
    rw [← blockDepth, Option.map_some, Option.map_some, if_neg hopen, veil_of_open hopen hstays]
    rfl

theorem IsBlock.shows_stop {start stop : Nat} (h : IsBlock body start stop) :
    (blankNested 0 (marked body))[stop]? = some '}' := by
  rw [getElem?_blankNested_eq, ← blockDepth, h.blockDepth_stop, h.closes.brace]
  rfl

theorem shows_outside (h : blockDepth body n = 0) :
    (blankNested 0 (marked body))[n]? = body[n]? := by
  rw [getElem?_blankNested h, getElem?_marked_map]

theorem DifferInBlocks.map_blankOf (h : DifferInBlocks a b) : a.map blankOf = b.map blankOf := by
  refine List.ext_getElem? fun n => ?_
  have hline := h.newline_iff n
  have hlength := h.length_eq
  rw [List.getElem?_map, List.getElem?_map]
  by_cases hn : n < a.length
  · rw [List.getElem?_eq_getElem hn, List.getElem?_eq_getElem (hlength ▸ hn), Option.some.injEq,
      Option.some.injEq] at hline
    simp only [List.getElem?_eq_getElem hn, List.getElem?_eq_getElem (hlength ▸ hn),
      Option.map_some, blankOf, hline]
  · rw [List.getElem?_eq_none (by omega), List.getElem?_eq_none (by omega)]

theorem DifferInBlocks.lineAt_eq (h : DifferInBlocks a b) (offset : Nat) :
    lineAt a offset = lineAt b offset := by
  have hcount : ∀ l : List Char, (l.take offset).count '\n' =
      ((l.map blankOf).take offset).count '\n' := by
    intro l
    rw [← List.map_take, List.count_eq_countP, List.count_eq_countP, List.countP_map]
    exact List.countP_congr fun c _ => by simp [blankOf_eq_newline_iff]
  rw [lineAt, lineAt, hcount a, h.map_blankOf, ← hcount b]

/-- What blocks hold has no part in blanking them, nor in where that fails. -/
theorem maskNested_congr (h : DifferInBlocks a b) : maskNested a = maskNested b := by
  have hzero : ∀ n ≤ a.length, blockDepth a n = 0 ↔ blockDepth b n = 0 := by
    intro n hn
    rcases agree_or_isShared h hn with ⟨start, stop, hlow, hhigh, ha, hb⟩ | hagree
    · exact iff_of_false (ha.blockDepth_pos hlow hhigh).ne' (hb.blockDepth_pos hlow hhigh).ne'
    · rw [hagree.depth]
  have hopen : openBrace? 0 0 0 (marked a) = openBrace? 0 0 0 (marked b) :=
    openBrace?_congr (by simp [h.length_eq]) (by simpa [blockDepth] using hzero) 0 (by simp)
  have hblank : blankNested 0 (marked a) = blankNested 0 (marked b) := by
    refine List.ext_getElem? fun n => ?_
    by_cases hshared : IsShared a b n
    · obtain ⟨start, stop, hlow, hhigh, ha, hb⟩ := hshared
      rcases Nat.lt_or_eq_of_le hhigh with hlt | rfl
      · rw [ha.shows_inside hlow hlt, hb.shows_inside hlow hlt, ← List.getElem?_map, h.map_blankOf,
          List.getElem?_map]
      · rw [ha.shows_stop, hb.shows_stop]
    · by_cases hn : n ≤ a.length
      · have hagree := (agree_or_isShared h hn).resolve_left hshared
        rw [getElem?_blankNested_eq, getElem?_blankNested_eq, hagree.marked_eq h hshared, ← blockDepth,
          ← blockDepth, hagree.depth]
      · have hlength := h.length_eq
        rw [List.getElem?_eq_none (by simp; omega), List.getElem?_eq_none (by simp; omega)]
  rw [maskNested, maskNested, hopen, hblank]
  cases openBrace? 0 0 0 (marked b) with
  | none => rfl
  | some offset => simp only [h.lineAt_eq]

end Blanking

section Comments
variable {a b body : List Char} {start stop n : Nat}

theorem blockDepth_mask (body : List Char) (n : Nat) :
    blockDepth (mask true body) n = blockDepth body n := by
  rw [blockDepth, marked_mask, ← List.map_take, openBlocks_remark, blockDepth]

theorem isBlock_mask_iff : IsBlock (mask true body) start stop ↔ IsBlock body start stop := by
  have hbrace : (marked (mask true body))[start]? = some ('{', .code) ↔
      (marked body)[start]? = some ('{', .code) :=
    marked_mask_getElem? (by decide) (by decide) body start
  have hcloses : Closes (mask true body) start stop ↔ Closes body start stop := by
    rw [closes_iff, marked_mask, ← List.map_drop, closingOffset?_remark (by decide) (by decide),
      ← closes_iff]
  constructor
  · intro h
    exact ⟨by rw [← blockDepth_mask, h.outermost], hbrace.1 h.brace, hcloses.1 h.closes⟩
  · intro h
    exact ⟨by rw [blockDepth_mask, h.outermost], hbrace.2 h.brace, hcloses.2 h.closes⟩

theorem DifferInBlocks.mask (h : DifferInBlocks a b) :
    DifferInBlocks (Source.mask true a) (Source.mask true b) where
  length_eq := by rw [length_mask, length_mask, h.length_eq]
  newline_iff n := by
    rw [getElem?_mask_eq_newline, getElem?_mask_eq_newline, h.newline_iff]
  inside n hne := by
    have hn : n < a.length := by
      by_contra hn
      have hlength := h.length_eq
      refine hne ?_
      rw [List.getElem?_eq_none (by simp; omega), List.getElem?_eq_none (by simp; omega)]
    have hshared : IsShared a b n := by
      by_contra hout
      have hagree := (agree_or_isShared h hn.le).resolve_left hout
      refine hne ?_
      rw [Source.mask, Source.mask, List.getElem?_map, List.getElem?_map, hagree.marked_eq h hout]
    obtain ⟨start, stop, hlow, hhigh, ha, hb⟩ := hshared
    refine ⟨start, stop, hlow, Nat.lt_of_le_of_ne hhigh ?_, isBlock_mask_iff.2 ha,
      isBlock_mask_iff.2 hb⟩
    rintro rfl
    refine hne ?_
    rw [getElem?_of_marked (isBlock_mask_iff.2 ha).closes.brace,
      getElem?_of_marked (isBlock_mask_iff.2 hb).closes.brace]

theorem memberText_congr (h : DifferInBlocks a b) : memberText a = memberText b :=
  maskNested_congr h.mask

end Comments

section Again
variable {depth n : Nat} {ms : List Marked} {body text : List Char}

theorem exists_outermost (hopen : blockDepth body n ≠ 0) :
    ∃ start < n, blockDepth body start = 0 ∧ (marked body)[start]? = some ('{', .code) ∧
      ∀ k, start < k → k ≤ n → blockDepth body k ≠ 0 := by
  induction n with
  | zero => exact absurd rfl hopen
  | succ n ih =>
    by_cases hzero : blockDepth body n = 0
    · refine ⟨n, Nat.lt_succ_self n, hzero, ?_, fun k hlow hhigh => ?_⟩
      · cases hm : (marked body)[n]? with
        | none =>
          rw [blockDepth_add, hzero, List.drop_eq_nil_of_le (List.getElem?_eq_none_iff.1 hm)] at hopen
          exact absurd rfl hopen
        | some m =>
          rw [blockDepth_succ hm, hzero] at hopen
          rw [eq_brace_of_openBlocks hopen]
      · obtain rfl : k = n + 1 := by omega
        exact hopen
    · obtain ⟨start, hlt, hstart, hbrace, hsince⟩ := ih hzero
      refine ⟨start, by omega, hstart, hbrace, fun k hlow hhigh => ?_⟩
      rcases Nat.lt_or_eq_of_le hhigh with hk | rfl
      · exact hsince k hlow (by omega)
      · exact hopen

theorem exists_isBlock (hclosed : openBlocks 0 (marked body) = 0) (hopen : blockDepth body n ≠ 0) :
    ∃ start stop, start < n ∧ n ≤ stop ∧ IsBlock body start stop := by
  obtain ⟨start, hlt, hstart, hbrace, hsince⟩ := exists_outermost hopen
  obtain ⟨k, hk⟩ : ∃ k, closingOffset? '{' '}' 1 ((marked body).drop (start + 1)) = some k := by
    by_contra hnone
    have hnone : ∀ j < body.length,
        closingOffset? '{' '}' 1 ((marked body).drop (start + 1)) ≠ some j :=
      fun j _ hj => hnone ⟨j, hj⟩
    have hdepth := openBlocks_of_not_closed hnone
    have hnonneg := balance_nonneg_of_not_closed hnone
    have hend : openBlocks 1 (((marked body).drop (start + 1)).take body.length) = 0 := by
      have hone : blockDepth body (start + 1) = 1 := by
        rw [blockDepth_succ hbrace, hstart]
        rfl
      have hadd := blockDepth_add body (start + 1) body.length
      rw [hone] at hadd
      rw [← hadd, blockDepth, List.take_of_length_le (by simp), hclosed]
    omega
  have hblock : IsBlock body start (start + 1 + k) :=
    ⟨hstart, hbrace, (closes_iff_of_open hbrace).2 ⟨k, rfl, hk⟩⟩
  refine ⟨start, start + 1 + k, hlt, ?_, hblock⟩
  by_contra hbehind
  exact hsince (start + 1 + k + 1) (by omega) (by omega) hblock.blockDepth_succ_stop

theorem openBlocks_veil (depth : Nat) (m : Marked) :
    openBlocks (min depth 1) [if depth = 0 then m else (veil depth m, .code)] =
      min (openBlocks depth [m]) 1 := by
  simp only [openBlocks, veil]
  grind

theorem openBlocks_veiled (depth : Nat) (ms : List Marked) :
    openBlocks (min depth 1) (veiled depth ms) = min (openBlocks depth ms) 1 := by
  induction ms generalizing depth with
  | nil => rfl
  | cons m ms ih =>
    rw [veiled, ← List.singleton_append, openBlocks_append, openBlocks_veil, ih,
      ← openBlocks_append, List.singleton_append]

theorem veil_veil (depth : Nat) (m : Marked) : veil 1 (veil depth m, .code) = veil depth m := by
  rcases veil_cases depth m with h | h | h <;> rw [h] <;> rfl

theorem blankNested_veiled (depth : Nat) (ms : List Marked) :
    blankNested (min depth 1) (veiled depth ms) = blankNested depth ms := by
  induction ms generalizing depth with
  | nil => rfl
  | cons m ms ih =>
    rw [veiled, blankNested_cons, blankNested_cons, openBlocks_veil, ih]
    by_cases hdepth : depth = 0
    · rw [hdepth]
      rfl
    · rw [if_neg hdepth, if_neg hdepth, if_neg (by omega), Nat.min_eq_right (by omega), veil_veil]

theorem maskNested_eq_ok_iff : maskNested body = .ok text ↔
    openBlocks 0 (marked body) = 0 ∧ text = blankNested 0 (marked body) := by
  rw [maskNested]
  have hnone := openBrace?_eq_none_iff 0 0 0 (marked body)
  cases hopen : openBrace? 0 0 0 (marked body) with
  | none => simp [hnone.1 hopen, eq_comm]
  | some i =>
    have hne : openBlocks 0 (marked body) ≠ 0 := fun hzero => by simp [hnone.2 hzero] at hopen
    simp [hne]

theorem getElem?_of_maskNested (h : maskNested body = .ok text)
    (hout : ∀ start stop, IsBlock body start stop → ¬(start < n ∧ n < stop)) :
    text[n]? = body[n]? := by
  obtain ⟨hclosed, rfl⟩ := maskNested_eq_ok_iff.1 h
  by_cases hopen : blockDepth body n = 0
  · exact shows_outside hopen
  · obtain ⟨start, stop, hlow, hhigh, hblock⟩ := exists_isBlock hclosed hopen
    obtain rfl : n = stop := by
      have := hout start stop hblock
      omega
    rw [hblock.shows_stop, getElem?_of_marked hblock.closes.brace]

theorem blank_of_maskNested {start stop : Nat} (h : maskNested body = .ok text)
    (hblock : IsBlock body start stop) (hlow : start < n) (hhigh : n < stop) :
    text[n]? = some ' ' ∨ text[n]? = some '\n' := by
  have hstop := (List.getElem?_eq_some_iff.1 (getElem?_of_marked hblock.closes.brace)).1
  rw [(maskNested_eq_ok_iff.1 h).2, hblock.shows_inside hlow hhigh,
    List.getElem?_eq_getElem (hhigh.trans hstop), Option.map_some, blankOf]
  split
  · exact .inr rfl
  · exact .inl rfl

theorem maskNested_again (h : maskNested body = .ok text) : maskNested text = .ok text := by
  obtain ⟨hclosed, rfl⟩ := maskNested_eq_ok_iff.1 h
  have hmarked : marked (blankNested 0 (marked body)) = veiled 0 (marked body) :=
    mark_blankNested 0 .code body
  have hopen := openBlocks_veiled 0 (marked body)
  have hblank := blankNested_veiled 0 (marked body)
  rw [Nat.zero_min] at hopen hblank
  rw [maskNested_eq_ok_iff, hmarked, hopen, hclosed, hblank]
  exact ⟨rfl, rfl⟩

end Again

end KotlinSchema.Source

namespace KotlinSchema
open Text Source

/-- What nested blocks hold has no part in what is read of a body, nor in the fault that is found in
it. Blanking them keeps a body in shape, shows all that is not inside of an outermost block, its
braces included, and nothing else; it can be done again and changes nothing then. -/
theorem nested_blocks_unread :
    (∀ a b, DifferInBlocks a b →
      parseProperties a = parseProperties b ∧ parseEntries a = parseEntries b) ∧
    ∀ body text, maskNested body = .ok text →
      text.length = body.length ∧
      (∀ n : Nat, text[n]? = some '\n' ↔ body[n]? = some '\n') ∧
      (∀ n : Nat, (∀ start stop, IsBlock body start stop → ¬(start < n ∧ n < stop)) →
        text[n]? = body[n]?) ∧
      (∀ n start stop, IsBlock body start stop → start < n → n < stop →
        text[n]? = some ' ' ∨ text[n]? = some '\n') ∧
      maskNested text = .ok text := by
  refine ⟨fun a b h => ?_, fun body text h => ?_⟩
  · rw [parseProperties, parseProperties, parseEntries, parseEntries, memberText_congr h]
    exact ⟨rfl, rfl⟩
  · have houtside : ∀ n : Nat, (∀ start stop, IsBlock body start stop → ¬(start < n ∧ n < stop)) →
        text[n]? = body[n]? := fun n => getElem?_of_maskNested h
    have hinside : ∀ n start stop, IsBlock body start stop → start < n → n < stop →
        text[n]? = some ' ' ∨ text[n]? = some '\n' := fun _ _ _ => blank_of_maskNested h
    refine ⟨length_maskNested h, fun n => ?_, houtside, hinside, maskNested_again h⟩
    by_cases hout : ∀ start stop, IsBlock body start stop → ¬(start < n ∧ n < stop)
    · rw [houtside n hout]
    · simp only [not_forall, not_not] at hout
      obtain ⟨start, stop, hblock, hlow, hhigh⟩ := hout
      rw [(maskNested_eq_ok_iff.1 h).2, hblock.shows_inside hlow hhigh, Option.map_eq_some_iff]
      simp [blankOf_eq_newline_iff]

def literalBlock : List Char := "f \x7b \"\x7d\" \x7d\nval a by value<F>()".toList

def nestedBlock : List Char := "f \x7b \x7bx\x7d \x7d\nval a by value<F>()".toList

theorem nested_blocks_unread_literalBlock :
    DifferInBlocks literalBlock nestedBlock ∧
    parseProperties literalBlock = parseProperties nestedBlock ∧
    parseEntries literalBlock = parseEntries nestedBlock ∧
    maskNested literalBlock = .ok "f \x7b     \x7d\nval a by value<F>()".toList ∧
    maskNested "f \x7b     \x7d\nval a by value<F>()".toList =
      .ok "f \x7b     \x7d\nval a by value<F>()".toList := by
  have hblock : IsBlock literalBlock 2 8 := ⟨rfl, rfl, closes_iff.2 ⟨by decide, by rfl⟩⟩
  have hblock' : IsBlock nestedBlock 2 8 := ⟨rfl, rfl, closes_iff.2 ⟨by decide, by rfl⟩⟩
  have hdiffer : DifferInBlocks literalBlock nestedBlock := by
    have hsame : ∀ n < 30, literalBlock[n]? ≠ nestedBlock[n]? → 2 < n ∧ n < 8 := by decide +kernel
    have hlines : ∀ n < 30, literalBlock[n]? = some '\n' ↔ nestedBlock[n]? = some '\n' := by
      decide +kernel
    have hend : ∀ n, 30 ≤ n → literalBlock[n]? = none ∧ nestedBlock[n]? = none := by
      intro n hn
      exact ⟨List.getElem?_eq_none (Nat.le_trans (by decide +kernel) hn),
        List.getElem?_eq_none (Nat.le_trans (by decide +kernel) hn)⟩
    refine ⟨by decide +kernel, fun n => ?_, fun n hne => ?_⟩
    · rcases Nat.lt_or_ge n 30 with hn | hn
      · exact hlines n hn
      · simp [hend n hn]
    · rcases Nat.lt_or_ge n 30 with hn | hn
      · exact ⟨2, 8, (hsame n hn hne).1, (hsame n hn hne).2, hblock, hblock'⟩
      · simp [hend n hn] at hne
  have hmask : maskNested literalBlock = .ok "f \x7b     \x7d\nval a by value<F>()".toList := by
    decide +kernel
  obtain ⟨hparse, hshown⟩ := nested_blocks_unread
  obtain ⟨hproperties, hentries⟩ := hparse literalBlock nestedBlock hdiffer
  obtain ⟨-, -, -, -, hagain⟩ := hshown literalBlock _ hmask
  exact ⟨hdiffer, hproperties, hentries, hmask, hagain⟩

end KotlinSchema
