import KotlinSchema.Proofs.Source.Blanking

/-! Nested parentheses and braces. Each count of brackets that goes up where they open and down where
they close stays above zero in a text in which they are nested, and comes back to zero: that of its
braces, and that of its parentheses outside of blocks. -/

namespace KotlinSchema.Source
open Text

/-- The parentheses and braces of the code are nested: what stands between two that match is a text
of this kind itself. -/
inductive IsNested : List Marked → Prop where
  | nil : IsNested []
  | plain {m : Marked} {ms : List Marked} :
    (∀ c ∈ ['(', ')', '{', '}'], m ≠ (c, .code)) → IsNested ms → IsNested (m :: ms)
  | parens {ms ns : List Marked} : IsNested ms → IsNested ns →
    IsNested (('(', .code) :: (ms ++ (')', .code) :: ns))
  | block {ms ns : List Marked} : IsNested ms → IsNested ns →
    IsNested (('{', .code) :: (ms ++ ('}', .code) :: ns))

/-- A count of brackets that goes up where one opens and down again where it is closed; it may
depend on the number of open blocks. -/
structure IsCount (f : Nat → List Marked → Int) : Prop where
  append : ∀ depth ms ns, f depth (ms ++ ns) = f depth ms + f (openBlocks depth ms) ns
  plain : ∀ depth m, (∀ c ∈ ['(', ')', '{', '}'], m ≠ (c, Region.code)) → f depth [m] = 0
  parens : ∀ depth, 0 ≤ f depth [('(', .code)] ∧
    f depth [('(', .code)] + f depth [(')', .code)] = 0
  block : ∀ depth, 0 ≤ f depth [('{', .code)] ∧
    f depth [('{', .code)] + f (depth + 1) [('}', .code)] = 0

section Nested
variable {depth : Nat} {o c : Marked} {ms ns : List Marked} {f : Nat → List Marked → Int}

theorem IsNested.plain_append (hms : ∀ m ∈ ms, ∀ c ∈ ['(', ')', '{', '}'], m ≠ (c, .code))
    (hns : IsNested ns) : IsNested (ms ++ ns) := by
  induction ms with
  | nil => exact hns
  | cons m ms ih =>
    rw [List.forall_mem_cons] at hms
    exact .plain hms.1 (ih hms.2)

theorem openBlocks_of_isNested (h : IsNested ms) (depth : Nat) : openBlocks depth ms = depth := by
  induction h generalizing depth with
  | nil => rfl
  | plain hm _ ih =>
    rw [openBlocks, if_neg (hm '{' (by simp)), if_neg (hm '}' (by simp)), ih]
  | parens _ _ ih ih' =>
    rw [openBlocks, if_neg (by decide), if_neg (by decide), openBlocks_append, ih, openBlocks,
      if_neg (by decide), if_neg (by decide), ih']
  | block _ _ ih ih' =>
    rw [openBlocks, if_pos rfl, openBlocks_append, ih, openBlocks, if_neg (by decide), if_pos rfl,
      Nat.add_sub_cancel, ih']

theorem take_brackets (o c : Marked) (ms ns : List Marked) (n : Nat) :
    (o :: (ms ++ c :: ns)).take n = [] ∨
      (∃ k, (o :: (ms ++ c :: ns)).take n = [o] ++ ms.take k) ∨
      ∃ k, (o :: (ms ++ c :: ns)).take n = [o] ++ (ms ++ ([c] ++ ns.take k)) := by
  cases n with
  | zero => exact .inl rfl
  | succ n =>
    right
    rcases Nat.lt_or_ge ms.length n with hlt | hle
    · obtain ⟨k, rfl⟩ := Nat.exists_eq_add_of_lt hlt
      refine .inr ⟨k, ?_⟩
      rw [List.take_succ_cons, Nat.add_assoc, List.take_length_add_append]
      rfl
    · refine .inl ⟨n, ?_⟩
      rw [List.take_succ_cons, List.take_append_of_le_length hle]
      rfl

theorem IsCount.nil (hf : IsCount f) (depth : Nat) : f depth [] = 0 := by
  have happend := hf.append depth [] []
  rw [List.append_nil, openBlocks] at happend
  omega

theorem IsCount.brackets (hf : IsCount f) {inner : Nat} (hinner : openBlocks depth [o] = inner)
    (houter : openBlocks inner [c] = depth) (hms : openBlocks inner ms = inner)
    (hopening : 0 ≤ f depth [o] ∧ f depth [o] + f inner [c] = 0)
    (ih : (∀ n, 0 ≤ f inner (ms.take n)) ∧ f inner ms = 0)
    (ih' : (∀ n, 0 ≤ f depth (ns.take n)) ∧ f depth ns = 0) :
    (∀ n, 0 ≤ f depth ((o :: (ms ++ c :: ns)).take n)) ∧ f depth (o :: (ms ++ c :: ns)) = 0 := by
  have hbehind : ∀ ns, f depth ([o] ++ (ms ++ ([c] ++ ns))) = f depth ns := by
    intro ns
    rw [hf.append, hinner, hf.append, hms, hf.append, houter, ih.2]
    omega
  refine ⟨fun n => ?_, (hbehind ns).trans ih'.2⟩
  rcases take_brackets o c ms ns n with h | ⟨k, h⟩ | ⟨k, h⟩
  · have hnil := hf.nil depth
    rw [h]
    omega
  · have hk := ih.1 k
    rw [h, hf.append, hinner]
    omega
  · rw [h, hbehind]
    exact ih'.1 k

theorem IsCount.of_isNested (hf : IsCount f) (h : IsNested ms) (depth : Nat) :
    (∀ n, 0 ≤ f depth (ms.take n)) ∧ f depth ms = 0 := by
  induction h generalizing depth with
  | nil => simp [hf.nil]
  | @plain m ms hm hms ih =>
    have hsame : openBlocks depth [m] = depth := openBlocks_of_isNested (.plain hm .nil) depth
    have hcons : ∀ ns, f depth (m :: ns) = f depth ns := by
      intro ns
      rw [← List.singleton_append, hf.append, hsame, hf.plain depth m hm, Int.zero_add]
    refine ⟨fun n => ?_, (hcons ms).trans (ih depth).2⟩
    cases n with
    | zero =>
      have hnil := hf.nil depth
      rw [List.take_zero]
      omega
    | succ n =>
      rw [List.take_succ_cons, hcons]
      exact (ih depth).1 n
  | parens hms _ ih ih' =>
    exact hf.brackets rfl rfl (openBlocks_of_isNested hms _) (hf.parens depth) (ih depth) (ih' depth)
  | block hms _ ih ih' =>
    exact hf.brackets rfl rfl (openBlocks_of_isNested hms _) (hf.block depth) (ih (depth + 1))
      (ih' depth)

theorem isCount_braces : IsCount fun _ ms => balance '{' '}' ms where
  append _ ms ns := balance_append '{' '}' ms ns
  plain _ m hm := by
    rw [balance_cons, depthChange_of_ne (hm '{' (by simp)) (hm '}' (by simp))]
    rfl
  parens _ := by decide
  block _ := by decide

theorem isCount_parens : IsCount fun depth ms => balance '(' ')' (outside depth ms) where
  append depth ms ns := by rw [outside_append, balance_append]
  plain depth m hm := by
    have hzero : balance '(' ')' [m] = 0 := by
      rw [balance_cons, depthChange_of_ne (hm '(' (by simp)) (hm ')' (by simp))]
      rfl
    rw [outside, outside, List.append_nil]
    split
    · exact hzero
    · rfl
  parens depth := by
    simp only [outside]
    split <;> decide
  block depth := by
    simp only [outside, Nat.succ_ne_zero, if_false]
    split <;> decide

end Nested

end KotlinSchema.Source
