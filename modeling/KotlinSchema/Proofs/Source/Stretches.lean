import KotlinSchema.Proofs.Source.Blocks
import KotlinSchema.Proofs.Text.Words

/-! Stretches of a member text. Where such a text shows no quote and no opening brace, no literal
begins or ends and no block begins; so the words of a stretch are all code or all part of a literal,
and they all stand outside of nested blocks. -/

namespace KotlinSchema.Source
open Text

section Depth
variable {depth n : Nat} {m : Marked} {ms : List Marked} {c : Char}

/-- The number of blocks open after a text, given the number of those open before it. -/
def openBlocks : Nat → List Marked → Nat
  | depth, [] => depth
  | depth, m :: rest =>
    if m = ('{', .code) then openBlocks (depth + 1) rest
    else if m = ('}', .code) then openBlocks (depth - 1) rest
    else openBlocks depth rest

theorem openBlocks_append (depth : Nat) (ms ms' : List Marked) :
    openBlocks depth (ms ++ ms') = openBlocks (openBlocks depth ms) ms' := by
  induction ms generalizing depth with
  | nil => rfl
  | cons m ms ih =>
    simp only [List.cons_append, openBlocks]
    split
    · exact ih _
    · split <;> exact ih _

theorem openBlocks_remark (keep : Bool) (depth : Nat) (ms : List Marked) :
    openBlocks depth (ms.map (remark keep)) = openBlocks depth ms := by
  induction ms generalizing depth with
  | nil => rfl
  | cons m ms ih =>
    simp only [List.map_cons, openBlocks, ih, remark_eq_code_iff (by decide : '{' ≠ ' ')
      (by decide), remark_eq_code_iff (by decide : '}' ≠ ' ') (by decide)]

theorem drop_blankNested (depth n : Nat) (ms : List Marked) :
    (blankNested depth ms).drop n = blankNested (openBlocks depth (ms.take n)) (ms.drop n) := by
  induction n generalizing depth ms with
  | zero => rfl
  | succ n ih =>
    cases ms with
    | nil => rfl
    | cons m ms =>
      simp only [blankNested, List.take_succ_cons, openBlocks]
      split
      · exact ih _ ms
      · split <;> exact ih _ ms

theorem blankNested_zero (m : Marked) (ms : List Marked) :
    blankNested 0 (m :: ms) = m.1 :: blankNested (openBlocks 0 [m]) ms := by
  simp only [blankNested, openBlocks]
  split
  · simp_all
  · split <;> simp_all

/-- What a text shows where a nested block has been blanked. -/
def IsBlanked (c : Char) : Prop := c = ' ' ∨ c = '\n' ∨ c = '{' ∨ c = '}'

theorem not_isBlanked_of_isWord (h : isWord c = true) : ¬IsBlanked c := by
  rintro (rfl | rfl | rfl | rfl) <;> revert h <;> decide

theorem not_isBlanked_of_forall {word : List Char} (hword : ∀ c ∈ word, isWord c = true) :
    ∀ c ∈ word, ¬IsBlanked c := fun c hc => not_isBlanked_of_isWord (hword c hc)

theorem isBlanked_of_succ (h : (blankNested (depth + 1) (m :: ms)).head? = some c) :
    IsBlanked c := by
  simp only [blankNested, Nat.succ_ne_zero, if_false, decide_false, Bool.false_or] at h
  split at h
  · exact .inl (by simpa using h.symm)
  · split at h
    · split at h
      · exact .inr (.inr (.inr (by simpa using h.symm)))
      · exact .inl (by simpa using h.symm)
    · split at h
      · rename_i hline
        exact .inr (.inl (by rw [← Option.some.inj h, eq_of_beq hline]))
      · exact .inl (by simpa using h.symm)

theorem getElem?_of_blankNested (hblank : ¬IsBlanked c)
    (hc : (blankNested depth ms)[n]? = some c) :
    ∃ r, ms[n]? = some (c, r) ∧ openBlocks depth (ms.take n) = 0 := by
  rw [← Nat.add_zero n, ← List.getElem?_drop, drop_blankNested, ← List.head?_eq_getElem?] at hc
  rw [← Nat.add_zero n, ← List.getElem?_drop, ← List.head?_eq_getElem?, Nat.add_zero]
  generalize openBlocks depth (ms.take n) = level at hc ⊢
  cases hdrop : ms.drop n with
  | nil => simp [hdrop, blankNested] at hc
  | cons m rest =>
    rw [hdrop] at hc
    cases level with
    | zero =>
      rw [blankNested_zero, List.head?_cons, Option.some.injEq] at hc
      exact ⟨m.2, by rw [List.head?_cons, ← hc], rfl⟩
    | succ level => exact absurd (isBlanked_of_succ hc) hblank

theorem getElem?_blankNested (h : openBlocks depth (ms.take n) = 0) :
    (blankNested depth ms)[n]? = ms[n]?.map Prod.fst := by
  rw [← Nat.add_zero n, ← List.getElem?_drop, ← List.getElem?_drop, drop_blankNested, h]
  cases ms.drop n with
  | nil => rfl
  | cons m rest => rw [blankNested_zero, List.getElem?_cons_zero, List.getElem?_cons_zero]; rfl

end Depth

section Literals
variable {mode : Mode} {c : Char} {rest : List Char}

def IsQuote (c : Char) : Prop := c = '"' ∨ c = '\''

theorem isQuote_double : IsQuote '"' := .inl rfl

def Mode.Fits : Mode → List Char → Prop
  | .rawClosing, rest => rest.head? = some '"'
  | .quoted q, _ | .escaped q, _ => IsQuote q
  | _, _ => True

theorem fits_step (h : mode.Fits (c :: rest)) : (step mode c rest).2.Fits rest := by
  fun_cases step mode c rest <;> simp_all [Mode.Fits, IsQuote] <;> grind [Mode.Fits]

theorem region_step (h : mode.Fits (c :: rest))
    (hc : (step mode c rest).1 = .comment ∨ ¬IsQuote c) :
    (step mode c rest).2.region = .literal ↔ mode.region = .literal := by
  rcases hc with hc | hc
  · have hbefore : mode.region ≠ .literal := by
      rcases region_before mode c rest with rfl | hbefore
      · simp [Mode.region]
      · simp [hbefore, hc]
    have hafter : (step mode c rest).2.region ≠ .literal := by
      rcases region_after mode c rest with hafter | hafter
      · simp [hafter, Mode.region]
      · simp [hafter, hc]
    simp only [hbefore, hafter]
  · fun_cases step mode c rest <;> simp_all [Mode.Fits, IsQuote, Mode.region] <;>
      grind [Mode.region]

theorem region_eq_literal_iff (hc : ¬IsQuote c) :
    (step mode c rest).1 = .literal ↔ mode.region = .literal := by
  fun_cases step mode c rest <;> simp_all [IsQuote, Mode.region]

end Literals

def IsInner (c : Char) : Prop := ¬IsQuote c ∧ c ≠ '{'

theorem isInner_iff {c : Char} : IsInner c ↔ c ∉ ['"', '\'', '{'] := by
  simp [IsInner, IsQuote, and_assoc]

theorem isInner_of_isWord {c : Char} (h : isWord c = true) : IsInner c :=
  isInner_iff.2 (not_mem_of_class h (by decide))

theorem isInner_of_isBlank {c : Char} (h : isBlank c = true) : IsInner c :=
  isInner_iff.2 (not_mem_of_class h (by decide))

section Stretch
variable {mode : Mode} {source body : List Char} {k : Nat}

theorem fits_modeAt (h : mode.Fits source) (n : Nat) :
    (modeAt mode source n).Fits (source.drop n) := by
  fun_induction modeAt mode source n with
  | case1 source mode => exact h
  | case2 mode n => exact h
  | case3 mode c rest n ih => exact ih (fits_step h)

/-- A stretch that shows neither quotes nor opening braces keeps the reader in or out of literals,
and outside of blocks. -/
theorem modeAt_of_stretch (hfits : mode.Fits source)
    (h : ∀ c ∈ (blankNested 0 ((mark mode source).map (remark true))).take k, IsInner c) :
    ((modeAt mode source k).region = .literal ↔ mode.region = .literal) ∧
      openBlocks 0 ((mark mode source).take k) = 0 := by
  induction k generalizing mode source with
  | zero =>
    rw [modeAt]
    exact ⟨Iff.rfl, rfl⟩
  | succ k ih =>
    cases source with
    | nil => exact ⟨Iff.rfl, rfl⟩
    | cons c rest =>
      generalize hr : (step mode c rest).1 = r
      rw [mark_cons, hr, List.map_cons, blankNested_zero, List.take_succ_cons,
        List.forall_mem_cons, ← List.map_singleton, openBlocks_remark] at h
      obtain ⟨⟨hquote, hbrace⟩, htail⟩ := h
      -- A character that is not shown belongs to a comment.
      have hkept : r = .comment ∨ shown true (c, r) = c := by
        cases r <;> simp [shown, Region.isKept]
      have hdepth : openBlocks 0 [(c, r)] = 0 := by
        have hopen : ¬(c, r) = ('{', .code) := by
          rintro heq
          obtain ⟨rfl, rfl⟩ := Prod.mk.inj heq
          exact hbrace rfl
        simp [openBlocks, hopen]
      rw [hdepth] at htail
      obtain ⟨hregion, hopen⟩ := ih (fits_step hfits) htail
      refine ⟨hregion.trans (region_step hfits ?_), ?_⟩
      · rw [hr]
        refine hkept.imp_right fun hshown => ?_
        rwa [← hshown]
      · rw [mark_cons, hr, List.take_succ_cons, ← List.singleton_append, openBlocks_append, hdepth]
        exact hopen

theorem eq_of_memberText {text : List Char} (h : memberText body = .ok text) :
    text = blankNested 0 ((marked body).map (remark true)) := by
  rw [memberText, maskNested] at h
  split at h
  · simp at h
  · rw [← Except.ok.inj h, marked_mask]

theorem marked_of_memberText {text : List Char} (h : memberText body = .ok text) {n : Nat}
    {c : Char} (hc : text[n]? = some c) (hblank : ¬IsBlanked c) :
    ∃ r, r ≠ .comment ∧ (marked body)[n]? = some (c, r) ∧
      openBlocks 0 ((marked body).take n) = 0 := by
  rw [eq_of_memberText h] at hc
  obtain ⟨r, hr, hopen⟩ := getElem?_of_blankNested hblank hc
  rw [← List.map_take, openBlocks_remark] at hopen
  rw [List.getElem?_map, Option.map_eq_some_iff] at hr
  obtain ⟨⟨d, r'⟩, hd, heq⟩ := hr
  obtain ⟨hshown, -⟩ := Prod.mk.inj heq
  have hkept : r' ≠ .comment := by
    rintro rfl
    have hcomment : shown true (d, .comment) = ' ' ∨ shown true (d, .comment) = '\n' :=
      shown_of_not_kept rfl
    rw [hshown] at hcomment
    exact hblank (or_assoc.1 (.inl hcomment))
  obtain rfl : d = c := by rwa [shown_of_kept (by cases r' <;> simp_all [Region.isKept])] at hshown
  exact ⟨r', hkept, hd, hopen⟩

theorem region_of_mark {n : Nat} {c : Char} {r : Region} (h : (mark mode source)[n]? = some (c, r))
    (hc : ¬IsQuote c) : r = .literal ↔ (modeAt mode source n).region = .literal := by
  rw [← Nat.add_zero n, ← List.getElem?_drop, drop_mark] at h
  cases hdrop : source.drop n with
  | nil => simp [hdrop] at h
  | cons d rest =>
    rw [hdrop, mark_cons, List.getElem?_cons_zero, Option.some.injEq, Prod.mk.injEq] at h
    obtain ⟨rfl, rfl⟩ := h
    exact region_eq_literal_iff hc

/-- A word of the body stands at an offset, in one region and outside of nested blocks. -/
def StandsAt (body : List Char) (offset : Nat) (word : List Char) (r : Region) : Prop :=
  ∀ n c, word[n]? = some c → (marked body)[offset + n]? = some (c, r) ∧
    openBlocks 0 ((marked body).take (offset + n)) = 0

variable {before a rest : List Char}

theorem exists_mode_of_memberText (h : memberText body = .ok (before ++ a))
    (hopen : openBlocks 0 ((marked body).take before.length) = 0) :
    ∃ mode source, Mode.Fits mode source ∧ (marked body).drop before.length = mark mode source ∧
      a = blankNested 0 ((mark mode source).map (remark true)) := by
  have hdrop : (marked body).drop before.length =
      mark (modeAt .code body before.length) (body.drop before.length) := drop_mark ..
  have hfits : Mode.Fits .code body := trivial
  refine ⟨_, _, fits_modeAt hfits before.length, hdrop, ?_⟩
  calc a
    _ = (before ++ a).drop before.length := List.drop_left.symm
    _ = blankNested 0 (((marked body).drop before.length).map (remark true)) := by
      rw [eq_of_memberText h, drop_blankNested, ← List.map_take, openBlocks_remark, hopen,
        List.map_drop]
    _ = _ := by rw [hdrop]

theorem exists_mode_of_stretch (h : memberText body = .ok (before ++ (a ++ rest)))
    (hinner : ∀ c ∈ a, IsInner c) (hopen : openBlocks 0 ((marked body).take before.length) = 0) :
    ∃ mode source, (marked body).drop before.length = mark mode source ∧
      a ++ rest = blankNested 0 ((mark mode source).map (remark true)) ∧
      ∀ n ≤ a.length, ((modeAt mode source n).region = .literal ↔ mode.region = .literal) ∧
        openBlocks 0 ((mark mode source).take n) = 0 := by
  obtain ⟨mode, source, hfits, hdrop, htext⟩ := exists_mode_of_memberText h hopen
  refine ⟨mode, source, hdrop, htext, fun n hn => modeAt_of_stretch hfits fun c hc => hinner c ?_⟩
  rw [← htext, List.take_append_of_le_length hn] at hc
  exact List.mem_of_mem_take hc

theorem literal_iff_of_stretch (h : memberText body = .ok (before ++ (a ++ rest)))
    (hinner : ∀ c ∈ a, IsInner c) (hopen : openBlocks 0 ((marked body).take before.length) = 0)
    {n n' : Nat} {c c' : Char} {r r' : Region} (hc : a[n]? = some c) (hc' : a[n']? = some c')
    (hr : (marked body)[before.length + n]? = some (c, r))
    (hr' : (marked body)[before.length + n']? = some (c', r')) :
    r = .literal ↔ r' = .literal := by
  obtain ⟨mode, source, hdrop, -, hstretch⟩ := exists_mode_of_stretch h hinner hopen
  have hregion {n : Nat} {c : Char} {r : Region} (hc : a[n]? = some c)
      (hr : (marked body)[before.length + n]? = some (c, r)) :
      r = .literal ↔ mode.region = .literal := by
    obtain ⟨hn, -⟩ := List.getElem?_eq_some_iff.1 hc
    rw [← List.getElem?_drop, hdrop] at hr
    exact (region_of_mark hr (hinner c (List.mem_of_getElem? hc)).1).trans (hstretch n hn.le).1
  exact (hregion hc hr).trans (hregion hc' hr').symm

theorem mem_of_code (h : memberText body = .ok (before ++ (a ++ rest)))
    (hinner : ∀ c ∈ a, IsInner c) (hopen : openBlocks 0 ((marked body).take before.length) = 0)
    {n : Nat} {c : Char} (hn : n < a.length)
    (hc : (marked body)[before.length + n]? = some (c, .code)) : c ∈ a := by
  obtain ⟨mode, source, hdrop, htext, hstretch⟩ := exists_mode_of_stretch h hinner hopen
  have hget : (mark mode source)[n]? = some (c, .code) := by rw [← hdrop, List.getElem?_drop, hc]
  refine List.mem_of_getElem? (i := n) ?_
  calc a[n]?
    _ = (a ++ rest)[n]? := (List.getElem?_append_left hn).symm
    _ = ((mark mode source).map (remark true))[n]?.map Prod.fst := by
      rw [htext, getElem?_blankNested]
      rw [← List.map_take, openBlocks_remark, (hstretch n hn.le).2]
    _ = some c := by
      rw [List.getElem?_map, hget]
      rfl

theorem getElem?_between {n : Nat} {c : Char} (hc : a[n]? = some c) :
    (before ++ (a ++ rest))[before.length + n]? = some c := by
  rw [List.getElem?_append_right (Nat.le_add_right _ _), Nat.add_sub_cancel_left,
    List.getElem?_append_left (List.getElem?_eq_some_iff.1 hc).1, hc]

theorem standsAt_of_stretch (h : memberText body = .ok (before ++ (a ++ rest)))
    (hinner : ∀ c ∈ a, IsInner c) (hfirst : ∃ c ∈ a.head?, isWord c = true) :
    ∃ r, r ≠ .comment ∧
      (∀ start word stop, a = start ++ (word ++ stop) → (∀ c ∈ word, ¬IsBlanked c) →
        StandsAt body (before.length + start.length) word r) ∧
      ∀ c, c ∉ a → ∀ k, before.length ≤ k → k < before.length + a.length →
        (marked body)[k]? ≠ some (c, .code) := by
  obtain ⟨first, hhead, hword⟩ := hfirst
  have hzero : a[0]? = some first := by rwa [← List.head?_eq_getElem?]
  obtain ⟨r, hr, hmarked, hopen⟩ :=
    marked_of_memberText h (getElem?_between hzero) (not_isBlanked_of_isWord hword)
  refine ⟨r, hr, ?_, ?_⟩
  · rintro start word stop rfl hwords n c hc
    have hat : (start ++ (word ++ stop))[start.length + n]? = some c := getElem?_between hc
    obtain ⟨r', hr', hmarked', hopen'⟩ :=
      marked_of_memberText h (getElem?_between hat) (hwords c (List.mem_of_getElem? hc))
    rw [Nat.add_assoc]
    -- Neither is a comment, and they are literals together.
    have hsame : r' = r := by
      have hiff := literal_iff_of_stretch h hinner hopen hat hzero hmarked' hmarked
      cases r <;> cases r' <;> simp_all
    exact hsame ▸ ⟨hmarked', hopen'⟩
  · intro c hc k hlow hhigh hk
    obtain ⟨n, rfl⟩ := Nat.exists_eq_add_of_le hlow
    exact hc (mem_of_code h hinner hopen (by omega) hk)

end Stretch

end KotlinSchema.Source
