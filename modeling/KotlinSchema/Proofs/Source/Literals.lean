import KotlinSchema.Proofs.Source.Passing

/-! Literals between double quotes, as the reader of regions and as the recogniser of literals see
them. What the reader is inside of until it leaves by a quote is what may stand in a literal, and
the recogniser accepts that where no line ends in it. So of a literal that ends on its line both
find the same end, and no other is accepted. -/

namespace KotlinSchema.Source

section Inside
variable {mode : Mode} {quote c : Char} {cs rest content : List Char} {n : Nat}

/-- From a mode that is not that of code, the reader is back in it behind the character at an
offset. -/
def LeavesAt (mode : Mode) (cs : List Char) (n : Nat) : Prop :=
  (∀ k < n + 1, modeAt mode cs k ≠ .code) ∧ modeAt mode cs (n + 1) = .code

theorem not_leavesAt_nil : ¬LeavesAt mode [] n := by
  rintro ⟨hinside, hend⟩
  exact hinside 0 (Nat.succ_pos n) hend

theorem not_leavesAt_code : ¬LeavesAt .code cs n := fun h =>
  h.1 0 (Nat.succ_pos n) (by simp [modeAt])

theorem leavesAt_zero (h : mode ≠ .code) :
    LeavesAt mode (c :: cs) 0 ↔ (step mode c cs).2 = .code := by
  simp [LeavesAt, modeAt, h]

theorem leavesAt_succ (h : mode ≠ .code) :
    LeavesAt mode (c :: cs) (n + 1) ↔ LeavesAt (step mode c cs).2 cs n := by
  rw [LeavesAt, Nat.forall_lt_succ_left]
  simp only [modeAt, ne_eq, h, not_false_eq_true, true_and]
  rfl

theorem exists_of_leavesAt_pair (h : LeavesAt (.quoted quote) ('\\' :: cs) n) :
    ∃ c rest m, cs = c :: rest ∧ n = m + 2 ∧ LeavesAt (.quoted quote) rest m := by
  cases n with
  | zero => simp [leavesAt_zero, step] at h
  | succ n =>
    rw [leavesAt_succ (by simp)] at h
    have hescaped : LeavesAt (.escaped quote) cs n := by simpa [step] using h
    cases cs with
    | nil => exact absurd hescaped not_leavesAt_nil
    | cons c rest =>
      cases n with
      | zero => simp [leavesAt_zero, step] at hescaped
      | succ n =>
        rw [leavesAt_succ (by simp)] at hescaped
        exact ⟨c, rest, n, rfl, rfl, hescaped⟩

theorem exists_of_leavesAt (h : LeavesAt (.quoted quote) cs n) :
    ∃ content rest, cs = content ++ quote :: rest ∧ content.length = n ∧
      Quotable quote content := by
  -- On the offset and not on the text, since a backslash takes two characters.
  induction n using Nat.strongRecOn generalizing cs with
  | _ n ih =>
    cases cs with
    | nil => exact absurd h not_leavesAt_nil
    | cons c cs =>
      by_cases hback : c = '\\'
      · subst hback
        obtain ⟨d, cs, m, rfl, rfl, hlater⟩ := exists_of_leavesAt_pair h
        obtain ⟨content, rest, rfl, rfl, hcontent⟩ := ih m (by omega) hlater
        exact ⟨'\\' :: d :: content, rest, rfl, rfl, .pair hcontent⟩
      by_cases hquote : c = quote
      · subst hquote
        cases n with
        | zero => exact ⟨[], cs, rfl, rfl, .nil⟩
        | succ n =>
          rw [leavesAt_succ (by simp)] at h
          have hcode : LeavesAt .code cs n := by simpa [step, hback] using h
          exact absurd hcode not_leavesAt_code
      · cases n with
        | zero =>
          rw [leavesAt_zero (by simp)] at h
          simp [step, hback, hquote] at h
        | succ n =>
          rw [leavesAt_succ (by simp)] at h
          have hinside : LeavesAt (.quoted quote) cs n := by simpa [step, hback, hquote] using h
          obtain ⟨content, rest, rfl, rfl, hcontent⟩ := ih n (Nat.lt_succ_self n) hinside
          exact ⟨c :: content, rest, rfl, rfl, .plain hquote hback hcontent⟩

theorem leavesAt_of_quotable (hquote : quote ≠ '\\') (h : Quotable quote content) :
    LeavesAt (.quoted quote) (content ++ quote :: rest) content.length := by
  have hmode : Mode.quoted quote ≠ .code := by simp
  induction h with
  | nil => exact (leavesAt_zero hmode).2 (by simp [step, hquote])
  | plain hne hback _ ih => exact (leavesAt_succ hmode).2 (by simpa [step, hne, hback] using ih)
  | @pair c content _ ih =>
    have hescaped : LeavesAt (.escaped quote) (c :: (content ++ quote :: rest))
        (content.length + 1) := (leavesAt_succ (by simp)).2 ih
    exact (leavesAt_succ hmode).2 (by simpa [step] using hescaped)

end Inside

section Offsets
variable {source : List Char} {i j : Nat}

theorem modeAt_add (mode : Mode) (source : List Char) (m n : Nat) :
    modeAt mode source (m + n) = modeAt (modeAt mode source m) (source.drop m) n := by
  induction m generalizing mode source with
  | zero => simp [modeAt]
  | succ m ih =>
    cases source with
    | nil => cases n <;> simp [modeAt]
    | cons c source => simpa [modeAt, Nat.add_right_comm] using ih (step mode c source).2 source

/-- Before the character at an offset the reader is in code, and behind it inside of a literal
between double quotes, one that is not raw. -/
def OpensLiteral (source : List Char) (i : Nat) : Prop :=
  modeAt .code source i = .code ∧ modeAt .code source (i + 1) = .quoted '"'

/-- The reader is not in code from behind one offset on until it is again, behind the character at
another. -/
def ClosesLiteral (source : List Char) (i j : Nat) : Prop :=
  i < j ∧ (∀ k, i < k → k ≤ j → modeAt .code source k ≠ .code) ∧ modeAt .code source (j + 1) = .code

theorem OpensLiteral.exists_drop (h : OpensLiteral source i) :
    source.drop i = '"' :: source.drop (i + 1) := by
  obtain ⟨hbefore, hbehind⟩ := h
  rw [modeAt_add, hbefore] at hbehind
  cases hdrop : source.drop i with
  | nil => simp [hdrop, modeAt] at hbehind
  | cons c rest =>
    have hrest : rest = source.drop (i + 1) := by
      rw [← List.drop_drop, hdrop]
      rfl
    rw [hdrop, modeAt, modeAt, step_code_eq] at hbehind
    rw [← hrest]
    congr 1
    split_ifs at hbehind
    all_goals simp_all

theorem OpensLiteral.closes_iff (h : OpensLiteral source i) : ClosesLiteral source i j ↔
    ∃ n, j = i + 1 + n ∧ LeavesAt (.quoted '"') (source.drop (i + 1)) n := by
  have hmode (n : Nat) : modeAt .code source (i + 1 + n) =
      modeAt (.quoted '"') (source.drop (i + 1)) n := by rw [modeAt_add, h.2]
  constructor
  · rintro ⟨hlt, hinside, hend⟩
    obtain ⟨n, rfl⟩ := Nat.exists_eq_add_of_le (Nat.succ_le_of_lt hlt)
    refine ⟨n, rfl, fun k hk => ?_, ?_⟩
    · rw [← hmode]
      exact hinside _ (by omega) (by omega)
    · rw [← hmode]
      exact hend
  · rintro ⟨n, rfl, hinside, hend⟩
    refine ⟨by omega, fun k hlow hhigh => ?_, ?_⟩
    · obtain ⟨m, rfl⟩ := Nat.exists_eq_add_of_le (Nat.succ_le_of_lt hlow)
      rw [Nat.succ_eq_add_one, hmode]
      exact hinside m (by omega)
    · rw [Nat.add_assoc, hmode]
      exact hend

theorem forall_between_iff {content rest : List Char}
    (hdrop : source.drop (i + 1) = content ++ rest) :
    (∀ k, i < k → k < i + 1 + content.length → source[k]? ≠ some '\n') ↔ '\n' ∉ content := by
  have hplace (m : Nat) (hm : m < content.length) : source[i + 1 + m]? = content[m]? := by
    rw [← List.getElem?_drop, hdrop, List.getElem?_append_left hm]
  constructor
  · intro h hmem
    obtain ⟨m, hm⟩ := List.mem_iff_getElem?.1 hmem
    obtain ⟨hlt, -⟩ := List.getElem?_eq_some_iff.1 hm
    exact h (i + 1 + m) (by omega) (by omega) ((hplace m hlt).trans hm)
  · intro h k hlow hhigh hk
    obtain ⟨m, rfl⟩ := Nat.exists_eq_add_of_le (Nat.succ_le_of_lt hlow)
    rw [Nat.succ_eq_add_one, hplace m (by omega)] at hk
    exact h (List.mem_of_getElem? hk)

/-- Of a literal that the reader leaves before the line ends, the recogniser accepts the text up to
there; of any other it accepts nothing. -/
theorem literal?_of_opensLiteral (h : OpensLiteral source i) :
    (∀ j, ClosesLiteral source i j → (∀ k, i < k → k < j → source[k]? ≠ some '\n') →
      literal? (source.drop i) =
        some ((source.drop i).take (j + 1 - i), source.drop (j + 1))) ∧
    ((∀ j, ClosesLiteral source i j → ∃ k, i < k ∧ k < j ∧ source[k]? = some '\n') →
      literal? (source.drop i) = none) := by
  rw [h.exists_drop]
  refine ⟨fun j hcloses hlines => ?_, fun hlines => ?_⟩
  · obtain ⟨_, rfl, hleaves⟩ := h.closes_iff.1 hcloses
    obtain ⟨content, rest, hdrop, rfl, hcontent⟩ := exists_of_leavesAt hleaves
    have hend : literalEnd? (source.drop (i + 1)) = some rest :=
      literalEnd?_eq_some_iff.2 ⟨content, hdrop, hcontent, (forall_between_iff hdrop).1 hlines⟩
    have hrest : source.drop (i + 1 + content.length + 1) = rest := by
      rw [Nat.add_assoc, ← List.drop_drop, hdrop]
      simp
    have htake : (source.drop (i + 1)).length - rest.length = content.length + 1 := by
      rw [hdrop]
      simp only [List.length_append, List.length_cons]
      omega
    have hlength : i + 1 + content.length + 1 - i = content.length + 1 + 1 := by omega
    rw [literal?, hend, Option.map_some, htake, hrest, hlength, List.take_succ_cons]
  · cases hend : literalEnd? (source.drop (i + 1)) with
    | none => rw [literal?, hend, Option.map_none]
    | some rest =>
      obtain ⟨content, hdrop, hcontent, hnone⟩ := literalEnd?_eq_some_iff.1 hend
      have hleaves : LeavesAt (.quoted '"') (source.drop (i + 1)) content.length := by
        rw [hdrop]
        exact leavesAt_of_quotable (by decide) hcontent
      obtain ⟨k, hlow, hhigh, hk⟩ := hlines _ (h.closes_iff.2 ⟨_, rfl, hleaves⟩)
      exact absurd hk ((forall_between_iff hdrop).2 hnone k hlow hhigh)

def quotedText : List Char := "a\"/*\\\"\\\\\"b\"\\\n\"".toList

theorem literal?_quotedText :
    (OpensLiteral quotedText 1 ∧ ClosesLiteral quotedText 1 8 ∧
      literal? (quotedText.drop 1) = some ((quotedText.drop 1).take 8, quotedText.drop 9)) ∧
    (OpensLiteral quotedText 10 ∧ ClosesLiteral quotedText 10 13 ∧
      literal? (quotedText.drop 10) = none) := by
  have hfirst : OpensLiteral quotedText 1 := ⟨by decide, by decide⟩
  have hsecond : OpensLiteral quotedText 10 := ⟨by decide, by decide⟩
  have hcloses : ClosesLiteral quotedText 1 8 :=
    hfirst.closes_iff.2 ⟨6, rfl, by decide, by decide⟩
  have hlater : ClosesLiteral quotedText 10 13 :=
    hsecond.closes_iff.2 ⟨2, rfl, by decide, by decide⟩
  refine ⟨⟨hfirst, hcloses, ?_⟩, hsecond, hlater, ?_⟩
  · have hdrop : quotedText.drop 2 = (quotedText.drop 2).take 6 ++ quotedText.drop 8 := by decide
    exact (literal?_of_opensLiteral hfirst).1 8 hcloses ((forall_between_iff hdrop).2 (by decide))
  -- Whatever offset closes the second literal, it is behind the end of the line.
  · refine (literal?_of_opensLiteral hsecond).2 fun j hj => ⟨12, by decide, ?_, rfl⟩
    obtain ⟨hlt, -, hend⟩ := hj
    by_contra hle
    have hj : j = 11 ∨ j = 12 := by omega
    rcases hj with rfl | rfl
    · exact absurd hend (by decide)
    · exact absurd hend (by decide)

end Offsets

end KotlinSchema.Source
