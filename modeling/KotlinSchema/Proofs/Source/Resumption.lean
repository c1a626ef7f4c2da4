import KotlinSchema.Proofs.Source.Blocks
import KotlinSchema.Proofs.Source.Tokens

/-! Reading can be resumed. From a character of code on, the reader keeps what it keeps of the text
when it comes from its start; and a block that has been cut out of a text is masked as it was inside
of it. -/

namespace KotlinSchema.Source

section Offsets
variable {α : Type}

theorem filter_zipIdx_of_le (l : List α) (n p : Nat) :
    ((l.zipIdx n).filter fun x => n + p ≤ x.2) = (l.drop p).zipIdx (n + p) := by
  induction l generalizing n p with
  | nil => simp
  | cons a l ih =>
    cases p with
    | zero =>
      have hall : ∀ x ∈ (a :: l).zipIdx n, decide (n + 0 ≤ x.2) = true := by
        intro x hx
        exact decide_eq_true (List.le_snd_of_mem_zipIdx hx)
      exact List.filter_eq_self.2 hall
    | succ p =>
      have hshift : n + (p + 1) = n + 1 + p := by omega
      rw [List.zipIdx_cons, List.filter_cons_of_neg (by simp), hshift, List.drop_succ_cons]
      exact ih (n + 1) p

theorem filter_zipIdx_of_lt (l : List α) (n p : Nat) :
    ((l.zipIdx n).filter fun x => x.2 < n + p) = (l.take p).zipIdx n := by
  induction l generalizing n p with
  | nil => simp
  | cons a l ih =>
    cases p with
    | zero =>
      have hnone : ∀ x ∈ (a :: l).zipIdx n, ¬decide (x.2 < n + 0) = true := by
        intro x hx
        have hle : n ≤ x.2 := List.le_snd_of_mem_zipIdx hx
        simpa using hle
      rw [List.filter_eq_nil_iff.2 hnone, List.take_zero, List.zipIdx_nil]
    | succ p =>
      have hshift : n + (p + 1) = n + 1 + p := by omega
      rw [List.zipIdx_cons, List.filter_cons_of_pos (by simp), hshift, List.take_succ_cons,
        List.zipIdx_cons, ih (n + 1) p]

end Offsets

section Kept
variable {keep : Bool} {source : List Char} {p : Nat} {c : Char}

theorem filter_keptChars (keep : Bool) (source : List Char) (start : Nat) (q : Nat → Bool) :
    ((keptChars keep source start).filter fun k => q k.1) =
      (((marked (source.drop start)).zipIdx start).filter fun m => q m.2).filterMap
        fun ((c, r), i) => if r.isKept keep then some (i, c) else none := by
  rw [keptChars, List.filter_filterMap, List.filterMap_filter]
  refine List.filterMap_congr fun m _ => ?_
  obtain ⟨⟨d, r⟩, i⟩ := m
  by_cases hkept : r.isKept keep = true <;> by_cases hq : q i = true <;> simp [hkept, hq]

theorem keptChars_of_code (keep : Bool) (h : (marked source)[p]? = some (c, .code)) :
    keptChars keep source p = (keptChars keep source 0).filter fun k => p ≤ k.1 := by
  have hfrom : (((marked source).zipIdx 0).filter fun m => p ≤ m.2) =
      ((marked source).drop p).zipIdx p := by
    have hle := filter_zipIdx_of_le (marked source) 0 p
    rwa [Nat.zero_add] at hle
  rw [filter_keptChars keep source 0 fun i => decide (p ≤ i), List.drop_zero, hfrom,
    ← marked_drop h]
  rfl

theorem mem_keptChars_false :
    (p, c) ∈ keptChars false source 0 ↔ (marked source)[p]? = some (c, .code) := by
  rw [mem_keptChars]
  constructor
  · rintro ⟨r, hr, hkept⟩
    cases r with
    | code => exact hr
    | literal => simp [Region.isKept] at hkept
    | comment => simp [Region.isKept] at hkept
  · exact fun h => ⟨.code, h, rfl⟩

theorem map_snd_kept (keep : Bool) (ms : List Marked) (n : Nat) :
    ((ms.zipIdx n).filterMap fun ((c, r), i) =>
      if r.isKept keep then some (i, c) else none).map Prod.snd =
      (ms.filter fun m => m.2.isKept keep).map Prod.fst := by
  induction ms generalizing n with
  | nil => rfl
  | cons m ms ih =>
    obtain ⟨d, r⟩ := m
    have hrest := ih (n + 1)
    rw [List.zipIdx_cons, List.filterMap_cons, List.filter_cons]
    cases hkept : r.isKept keep with
    | true => simpa [hkept] using hrest
    | false => simpa [hkept] using hrest

/-- The characters of code from one offset on, before another one. -/
def codeIn (source : List Char) (start stop : Nat) : List Char :=
  ((keptChars false source 0).filter fun k => start ≤ k.1 ∧ k.1 < stop).map Prod.snd

theorem codeIn_eq (source : List Char) (start stop : Nat) :
    codeIn source start stop =
      ((((marked source).take stop).drop start).filter fun m => m.2.isKept false).map Prod.fst := by
  have hbetween : (((marked source).zipIdx 0).filter
      fun m => decide (start ≤ m.2 ∧ m.2 < stop)) =
        (((marked source).take stop).drop start).zipIdx start := by
    have hlt := filter_zipIdx_of_lt (marked source) 0 stop
    have hle := filter_zipIdx_of_le ((marked source).take stop) 0 start
    rw [Nat.zero_add] at hlt hle
    rw [← hle, ← hlt, List.filter_filter]
    simp only [Bool.decide_and]
  rw [codeIn, filter_keptChars false source 0 fun i => decide (start ≤ i ∧ i < stop),
    List.drop_zero, hbetween, map_snd_kept]

theorem count_codeIn (c : Char) (source : List Char) (start stop : Nat) :
    (codeIn source start stop).count c =
      (((marked source).take stop).drop start).count (c, .code) := by
  rw [codeIn_eq, List.count_eq_countP, List.countP_map, List.countP_filter, List.count_eq_countP]
  refine List.countP_congr fun m _ => ?_
  obtain ⟨d, r⟩ := m
  cases r <;> simp [Region.isKept]

end Kept

/-- Where a character of code stands, the reader may as well begin. From there on it keeps exactly
what it keeps there of the whole text; and the block of a brace that stands there, cut out and masked
on its own, is a stretch of the masked text. -/
theorem reading_resumes {source : List Char} {p : Nat} {c : Char}
    (h : (p, c) ∈ keptChars false source 0) :
    (∀ keep, keptChars keep source p = (keptChars keep source 0).filter fun k => p ≤ k.1) ∧
    (c = '{' → ∀ stop, blockEnd source p = .ok stop →
      ∃ body, block source p = .ok body ∧
        ∀ keep, mask keep body = ((mask keep source).take stop).drop (p + 1)) := by
  have hcode : (marked source)[p]? = some (c, .code) := mem_keptChars_false.1 h
  refine ⟨fun keep => keptChars_of_code keep hcode, ?_⟩
  rintro rfl stop hstop
  have hblock : block source p = .ok ((source.drop (p + 1)).take (stop - (p + 1))) := by
    rw [block_eq_map, hstop]
    rfl
  refine ⟨_, hblock, fun keep => ?_⟩
  -- Masked or not, a text has the same blocks, so it makes no difference which is done first.
  have hmasked : block (mask keep source) p =
      .ok (mask keep ((source.drop (p + 1)).take (stop - (p + 1)))) := by
    rw [block_mask hcode, hblock]
    rfl
  have hslice : block (mask keep source) p =
      .ok (((mask keep source).drop (p + 1)).take (stop - (p + 1))) := by
    rw [block_eq_map, blockEnd_mask hcode, hstop]
    rfl
  calc mask keep ((source.drop (p + 1)).take (stop - (p + 1)))
    _ = ((mask keep source).drop (p + 1)).take (stop - (p + 1)) :=
      Except.ok.inj (hmasked.symm.trans hslice)
    _ = ((mask keep source).take stop).drop (p + 1) := List.drop_take.symm

def bracedText : List Char := "a/*\x7b*/\x7b\"\x7d\"//\x7d\n\x7b\x7d\x7db".toList

theorem reading_resumes_bracedText :
    (6, '{') ∈ keptChars false bracedText 0 ∧ blockEnd bracedText 6 = .ok 16 ∧
    (∀ keep, keptChars keep bracedText 6 =
      (keptChars keep bracedText 0).filter fun k => 6 ≤ k.1) ∧
    ∃ body, block bracedText 6 = .ok body ∧
      ∀ keep, mask keep body = ((mask keep bracedText).take 16).drop 7 := by
  have hcode : (6, '{') ∈ keptChars false bracedText 0 := by decide
  have hstop : blockEnd bracedText 6 = .ok 16 := by rfl
  obtain ⟨hkept, hblock⟩ := reading_resumes hcode
  exact ⟨hcode, hstop, hkept, hblock rfl 16 hstop⟩

end KotlinSchema.Source
