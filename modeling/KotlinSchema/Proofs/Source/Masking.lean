import Mathlib.Data.List.Forall2
import KotlinSchema.Proofs.Source.Modes
import KotlinSchema.Text.Lines

/-! Reading a masked text. Where something has been blanked the masked text reads as code;
everywhere else the reader is in the mode in which it read the text itself. So nothing new is found
in a masked text, and masking again shows what one mask would have shown. -/

namespace KotlinSchema.Source

def Mode.region : Mode → Region
  | .code => .code
  | .lineComment | .blockOpening | .blockComment | .blockClosing => .comment
  | .quoted _ | .escaped _ | .rawSecond | .rawThird | .raw | .rawClosing => .literal

/-- The mode in which a masked text is read where the text itself is read in a mode. -/
def Mode.masked (keep : Bool) (mode : Mode) : Mode :=
  if mode.region.isKept keep then mode else .code

/-- A marked character as it is marked in the masked text. -/
def remark (keep : Bool) (m : Marked) : Marked :=
  (shown keep m, if m.2.isKept keep then m.2 else .code)

section Blanks
variable {keep : Bool} {c x : Char} {r : Region} {ms : List Marked} {mode : Mode}
  {rest : List Char}

theorem shown_of_kept (h : r.isKept keep = true) : shown keep (c, r) = c := by
  simp [shown, h]

theorem shown_of_not_kept (h : r.isKept keep = false) :
    shown keep (c, r) = ' ' ∨ shown keep (c, r) = '\n' := by
  by_cases hc : c = '\n' <;> simp [shown, h, hc]

theorem step_blank (hc : c = ' ' ∨ c = '\n') : step .code c rest = (.code, .code) := by
  rcases hc with rfl | rfl <;> simp [step_code_eq]

theorem head?_of_map_shown (hx : x ≠ ' ') (h : (ms.map (shown keep)).head? = some x) :
    (ms.map Prod.fst).head? = some x := by
  rcases ms with _ | ⟨⟨c, r⟩, ms⟩
  · simp at h
  · simp only [List.map_cons, List.head?_cons, Option.some.injEq, shown] at h ⊢
    split at h
    · exact h
    · exact absurd h.symm hx

theorem head?_of_mark (hx : x ≠ ' ') (h : ((mark mode rest).map (shown keep)).head? = some x) :
    rest.head? = some x := by
  simpa using head?_of_map_shown hx h

theorem take_two_of_mark (h : ((mark mode rest).map (shown keep)).take 2 = ['"', '"']) :
    rest.take 2 = ['"', '"'] := by
  rcases rest with _ | ⟨a, _ | ⟨b, rest⟩⟩
  · simp at h
  · simp at h
  · have hfirst : ((mark mode (a :: b :: rest)).map (shown keep)).head? = some '"' := by
      simpa using (List.cons.inj h).1
    have hsecond :
        ((mark (step mode a (b :: rest)).2 (b :: rest)).map (shown keep)).head? = some '"' := by
      simpa using (List.cons.inj (List.cons.inj h).2).1
    have ha := head?_of_mark (by decide) hfirst
    have hb := head?_of_mark (by decide) hsecond
    simp_all

theorem masked_eq (h : mode = .code ∨ mode.region = r) :
    mode.masked keep = if r.isKept keep then mode else .code := by
  rcases h with rfl | rfl
  · simp [Mode.masked]
  · rfl

theorem region_before (mode : Mode) (c : Char) (rest : List Char) :
    mode = .code ∨ mode.region = (step mode c rest).1 := by
  fun_cases step mode c rest <;> simp [Mode.region]

theorem region_after (mode : Mode) (c : Char) (rest : List Char) :
    (step mode c rest).2 = .code ∨ (step mode c rest).2.region = (step mode c rest).1 := by
  fun_cases step mode c rest <;> grind [step, Mode.region]

theorem step_masked_code (h : (step .code c rest).1 = .code) :
    step .code c ((mark .code rest).map (shown keep)) = (.code, .code) := by
  have hslash : ((mark .code rest).map (shown keep)).head? = some '/' → rest.head? = some '/' :=
    head?_of_mark (by decide)
  have hstar : ((mark .code rest).map (shown keep)).head? = some '*' → rest.head? = some '*' :=
    head?_of_mark (by decide)
  grind [step_code_eq]

theorem step_masked_opening (h : (step .code c rest).1 = .literal) :
    step .code c ((mark (step .code c rest).2 rest).map (shown true)) = step .code c rest := by
  by_cases hr : c = '"' ∧ rest.take 2 = ['"', '"']
  · obtain ⟨rfl, hr⟩ := hr
    obtain ⟨tail, rfl⟩ := take_two_eq_iff.1 hr
    rfl
  · have hm : ¬(c = '"' ∧ ((mark (step .code c rest).2 rest).map (shown true)).take 2 =
        ['"', '"']) := fun hm => hr ⟨hm.1, take_two_of_mark hm.2⟩
    have hc : c = '"' ∨ c = '\'' := by grind [step_code_eq]
    have hslash : c ≠ '/' := by rcases hc with rfl | rfl <;> decide
    simp only [step_code_eq, hslash, hr, hc, false_and, if_false, if_true] at hm ⊢
    rw [if_neg hm]

theorem step_masked_raw (c : Char) (rest : List Char) :
    step .raw c ((mark (step .raw c rest).2 rest).map (shown true)) = step .raw c rest := by
  by_cases hr : c = '"' ∧ rest.take 2 = ['"', '"']
  · obtain ⟨rfl, hr⟩ := hr
    obtain ⟨tail, rfl⟩ := take_two_eq_iff.1 hr
    simp [step_raw_eq, step_rawClosing_eq, shown, Region.isKept]
  · have hm : ¬(c = '"' ∧ ((mark (step .raw c rest).2 rest).map (shown true)).take 2 =
        ['"', '"']) := fun hm => hr ⟨hm.1, take_two_of_mark hm.2⟩
    rw [step_raw_eq, if_neg hm, step_raw_eq, if_neg hr]

theorem step_masked_rawClosing (c : Char) (rest : List Char) :
    step .rawClosing c ((mark (step .rawClosing c rest).2 rest).map (shown true)) =
      step .rawClosing c rest := by
  by_cases hr : rest.head? = some '"'
  · obtain ⟨tail, rfl⟩ := List.head?_eq_some_iff.1 hr
    cases tail with
    | nil => rfl
    | cons x tail => by_cases hx : x = '"' <;> simp [step_rawClosing_eq, shown, Region.isKept]
  · have hm : ¬((mark (step .rawClosing c rest).2 rest).map (shown true)).head? = some '"' :=
      fun hm => hr (head?_of_mark (by decide) hm)
    rw [step_rawClosing_eq, if_neg hm, step_rawClosing_eq, if_neg hr]

theorem step_masked_literal (h : (step mode c rest).1 = .literal) :
    step mode c ((mark (step mode c rest).2 rest).map (shown true)) = step mode c rest := by
  cases mode with
  | code => exact step_masked_opening h
  | raw => exact step_masked_raw c rest
  | rawClosing => exact step_masked_rawClosing c rest
  | blockComment => simp [step_blockComment_eq] at h
  -- In the other modes what follows does not matter.
  | _ => rfl

/-- One step of reading a masked text, beside the same step of reading the text. -/
theorem step_masked (keep : Bool) (mode : Mode) (c : Char) (rest : List Char) :
    step (mode.masked keep) (shown keep (c, (step mode c rest).1))
        ((mark (step mode c rest).2 rest).map (shown keep)) =
      ((remark keep (c, (step mode c rest).1)).2, (step mode c rest).2.masked keep) := by
  rw [masked_eq (region_before mode c rest), masked_eq (region_after mode c rest)]
  cases hk : (step mode c rest).1.isKept keep with
  | false =>
    rw [if_neg (by simp), if_neg (by simp), step_blank (shown_of_not_kept hk)]
    simp [remark, hk]
  | true =>
    rw [if_pos rfl, if_pos rfl, shown_of_kept hk]
    simp only [remark, hk, if_true]
    cases hr : (step mode c rest).1 with
    | code =>
      obtain ⟨rfl, hafter⟩ := step_region_code hr
      rw [hafter, step_masked_code hr]
    | literal =>
      obtain rfl : keep = true := by simpa [hr, Region.isKept] using hk
      rw [step_masked_literal hr, ← hr]
    | comment => simp [hr, Region.isKept] at hk

theorem mark_masked (keep : Bool) (mode : Mode) (source : List Char) :
    mark (mode.masked keep) ((mark mode source).map (shown keep)) =
      (mark mode source).map (remark keep) := by
  induction source generalizing mode with
  | nil => rfl
  | cons c rest ih =>
    -- Both readers take a step, and are again in modes that belong together.
    simp only [mark_cons, List.map_cons, step_masked, ih]
    rfl

end Blanks

/-- The masked text is marked as the text is, with the blanks as code. -/
theorem marked_mask (keep : Bool) (source : List Char) :
    marked (mask keep source) = (marked source).map (remark keep) :=
  mark_masked keep .code source

theorem mask_mask (keep keep' : Bool) (source : List Char) :
    mask keep' (mask keep source) = mask (keep && keep') source := by
  have h : ∀ m : Marked, shown keep' (remark keep m) = shown (keep && keep') m := by
    rintro ⟨c, r⟩
    cases r <;> cases keep <;> simp [shown, remark, Region.isKept]
  rw [mask, marked_mask, List.map_map, mask]
  exact List.map_congr_left fun m _ => h m

theorem shown_eq_newline_iff (keep : Bool) (m : Marked) : shown keep m = '\n' ↔ m.1 = '\n' := by
  obtain ⟨c, r⟩ := m
  by_cases hc : c = '\n' <;> cases hk : r.isKept keep <;> simp [shown, hk, hc]

theorem getElem?_mask_eq_newline (keep : Bool) (source : List Char) (i : Nat) :
    (mask keep source)[i]? = some '\n' ↔ source[i]? = some '\n' := by
  rw [← congrArg (·[i]?) (map_fst_mark .code source), mask, List.getElem?_map, List.getElem?_map,
    Option.map_eq_some_iff, Option.map_eq_some_iff]
  simp only [shown_eq_newline_iff, marked]

theorem shown_eq_self_or_blank (keep : Bool) (m : Marked) :
    shown keep m = m.1 ∨ shown keep m = ' ' := by
  rw [shown]
  split
  · exact .inl rfl
  · exact .inr rfl

/-- A mask keeps a text in shape: each character is itself or a blank, and the lines end where they
ended. Two masks show what both of them show, so masking again changes nothing. -/
theorem mask_keeps_layout (keep keep' : Bool) (source : List Char) :
    (mask keep source).length = source.length ∧
    (∀ i : Nat, (mask keep source)[i]? = some '\n' ↔ source[i]? = some '\n') ∧
    List.Forall₂ (fun c d => d = c ∨ d = ' ') source (mask keep source) ∧
    mask keep' (mask keep source) = mask (keep && keep') source ∧
    mask keep (mask keep source) = mask keep source := by
  refine ⟨length_mask keep source, getElem?_mask_eq_newline keep source, ?_,
    mask_mask keep keep' source, ?_⟩
  · have hsource : source = (marked source).map Prod.fst := (map_fst_mark .code source).symm
    conv => arg 2; rw [hsource]
    rw [mask, List.forall₂_map_left_iff, List.forall₂_map_right_iff, List.forall₂_same]
    exact fun m _ => shown_eq_self_or_blank keep m
  · rw [mask_mask, Bool.and_self]

theorem lineAt_mask (keep : Bool) (source : List Char) (offset : Nat) :
    Text.lineAt (mask keep source) offset = Text.lineAt source offset := by
  have hsource : source.take offset = ((marked source).take offset).map Prod.fst := by
    rw [List.map_take, marked, map_fst_mark]
  rw [Text.lineAt, Text.lineAt, hsource, mask, ← List.map_take, List.count_eq_countP,
    List.count_eq_countP, List.countP_map, List.countP_map]
  refine congrArg (· + 1) (List.countP_congr fun m _ => ?_)
  simp [shown_eq_newline_iff]

section Brackets
variable {keep : Bool} {c : Char}

theorem remark_eq_code_iff (h₁ : c ≠ ' ') (h₂ : c ≠ '\n') (m : Marked) :
    remark keep m = (c, .code) ↔ m = (c, .code) := by
  obtain ⟨d, r⟩ := m
  cases r <;> cases keep <;> simp [remark, shown, Region.isKept] <;> grind

theorem marked_mask_getElem? (h₁ : c ≠ ' ') (h₂ : c ≠ '\n') (source : List Char) (p : Nat) :
    (marked (mask keep source))[p]? = some (c, .code) ↔ (marked source)[p]? = some (c, .code) := by
  rw [marked_mask, List.getElem?_map, Option.map_eq_some_iff]
  simp only [remark_eq_code_iff h₁ h₂, exists_eq_right]

theorem marked_of_mask (h₁ : c ≠ ' ') (h₂ : c ≠ '\n') {source : List Char} {p : Nat}
    (h : (mask false source)[p]? = some c) : (marked source)[p]? = some (c, .code) := by
  rw [mask, List.getElem?_map, Option.map_eq_some_iff] at h
  obtain ⟨⟨d, r⟩, hd, hc⟩ := h
  cases r <;> simp [shown, Region.isKept] at hc <;> grind

end Brackets

end KotlinSchema.Source
