import KotlinSchema.Proofs.Source.Tokens

/-! Block comments inside of block comments. The reader of regions does not count them: a comment is
over at the first end that it holds, and what follows is read as code even where a comment that
counts those inside of it goes on. -/

namespace KotlinSchema.Source

/-- The place after a block comment that holds others, from a place in it at which so many of them
are open. -/
def commentEnd? : Nat → List Char → Option (List Char)
  | _, [] => none
  | depth, '/' :: '*' :: cs => commentEnd? (depth + 1) cs
  | 0, '*' :: '/' :: cs => some cs
  | depth + 1, '*' :: '/' :: cs => commentEnd? depth cs
  | depth, _ :: cs => commentEnd? depth cs

section Ends
variable {depth : Nat} {cs rest text after : List Char} {c : Char}

theorem commentEnd?_cons (hopen : ¬(c = '/' ∧ cs.head? = some '*'))
    (hclose : ¬(c = '*' ∧ cs.head? = some '/')) :
    commentEnd? depth (c :: cs) = commentEnd? depth cs := by
  rw [commentEnd?.eq_def]
  split <;> simp_all

theorem length_commentEnd?_le (h : commentEnd? depth cs = some rest) :
    rest.length + 2 * (depth + 1) ≤ cs.length := by
  fun_induction commentEnd? depth cs with
  | case1 => simp at h
  | case2 depth cs ih =>
    have := ih h
    simp only [List.length_cons]
    omega
  | case3 cs =>
    obtain rfl := Option.some.inj h
    simp
  | case4 depth cs ih =>
    have := ih h
    simp only [List.length_cons]
    omega
  | case5 depth c cs _ _ _ ih =>
    have := ih h
    simp only [List.length_cons]
    omega

theorem commentEnd?_suffix (h : commentEnd? depth cs = some rest) : rest <:+ cs := by
  fun_induction commentEnd? depth cs with
  | case1 => simp at h
  | case2 depth cs ih => exact (ih h).trans ⟨['/', '*'], rfl⟩
  | case3 cs => exact ⟨['*', '/'], by rw [Option.some.inj h]; rfl⟩
  | case4 depth cs ih => exact (ih h).trans ⟨['*', '/'], rfl⟩
  | case5 depth c cs _ _ _ ih => exact (ih h).trans (List.suffix_cons c cs)

theorem end_infix_of_commentEnd? (h : commentEnd? depth cs = some rest) : ['*', '/'] <:+: cs := by
  fun_induction commentEnd? depth cs with
  | case1 => simp at h
  | case2 depth cs ih => exact List.infix_cons (List.infix_cons (ih h))
  | case3 cs => exact ⟨[], cs, rfl⟩
  | case4 depth cs => exact ⟨[], cs, rfl⟩
  | case5 depth c cs _ _ _ ih => exact List.infix_cons (ih h)

theorem exists_first_end (h : ['*', '/'] <:+: cs) :
    ∃ text after, cs = text ++ ['*', '/'] ++ after ∧ ¬['*', '/'] <:+: text := by
  induction cs with
  | nil => simp at h
  | cons c cs ih =>
    by_cases hc : c = '*' ∧ cs.head? = some '/'
    · obtain ⟨rfl, hhead⟩ := hc
      obtain ⟨after, rfl⟩ := List.head?_eq_some_iff.1 hhead
      exact ⟨[], after, rfl, by simp⟩
    · have hlater : ['*', '/'] <:+: cs := by
        refine (List.infix_cons_iff.1 h).resolve_left ?_
        rintro ⟨tail, htail⟩
        obtain ⟨rfl, rfl⟩ : '*' = c ∧ '/' :: tail = cs := by simpa using htail
        exact hc ⟨rfl, rfl⟩
      obtain ⟨text, after, rfl, htext⟩ := ih hlater
      exact ⟨c :: text, after, rfl, (not_end_infix_cons htext after).2 hc⟩

theorem begin_infix_cons (h : ¬['/', '*'] <:+: text ++ ['*']) (after : List Char) :
    ['/', '*'] <:+: c :: text ++ ['*'] ↔
      c = '/' ∧ (text ++ ['*', '/'] ++ after).head? = some '*' := by
  rw [List.cons_append, List.infix_cons_iff, or_iff_left h]
  constructor
  · rintro ⟨tail, htail⟩
    obtain ⟨rfl, htext⟩ : '/' = c ∧ '*' :: tail = text ++ ['*'] := by simpa using htail
    refine ⟨rfl, ?_⟩
    cases text with
    | nil => rfl
    | cons d text => simpa using (List.cons.inj htext).1.symm
  · rintro ⟨rfl, hhead⟩
    cases text with
    | nil => exact ⟨[], rfl⟩
    | cons d text =>
      obtain rfl : d = '*' := by simpa using hhead
      exact ⟨text ++ ['*'], rfl⟩

theorem commentEnd?_of_first_end (hend : ¬['*', '/'] <:+: text)
    (hbegin : ¬['/', '*'] <:+: text ++ ['*']) (after : List Char) :
    commentEnd? 0 (text ++ ['*', '/'] ++ after) = some after := by
  induction text with
  | nil => rfl
  | cons c text ih =>
    have hend' : ¬['*', '/'] <:+: text := fun h => hend (List.infix_cons h)
    have hbegin' : ¬['/', '*'] <:+: text ++ ['*'] := fun h => hbegin (List.infix_cons h)
    rw [List.cons_append, List.cons_append,
      commentEnd?_cons (mt (begin_infix_cons hbegin' after).2 hbegin)
        ((not_end_infix_cons hend' after).1 hend)]
    exact ih hend' hbegin'

theorem length_commentEnd?_lt {depth : Nat} {text : List Char} (hend : ¬['*', '/'] <:+: text)
    (hinner : 0 < depth ∨ ['/', '*'] <:+: text ++ ['*'])
    (h : commentEnd? depth (text ++ ['*', '/'] ++ after) = some rest) :
    rest.length < after.length := by
  match text with
  | [] =>
    have hdepth : 0 < depth := hinner.resolve_right (by decide)
    obtain ⟨depth, rfl⟩ := Nat.exists_eq_succ_of_ne_zero hdepth.ne'
    have hlength : rest.length + 2 * (depth + 1) ≤ after.length := length_commentEnd?_le h
    omega
  | c :: text =>
    have hend' : ¬['*', '/'] <:+: text := fun h => hend (List.infix_cons h)
    by_cases hopen : c = '/' ∧ (text ++ ['*', '/'] ++ after).head? = some '*'
    · obtain ⟨rfl, hhead⟩ := hopen
      cases text with
      | nil =>
        have hdeeper : commentEnd? (depth + 1) ('/' :: after) = some rest := h
        have hlength := length_commentEnd?_le hdeeper
        simp only [List.length_cons] at hlength
        omega
      | cons d text =>
        obtain rfl : d = '*' := by simpa using hhead
        exact length_commentEnd?_lt (fun h => hend' (List.infix_cons h))
          (.inl (Nat.succ_pos depth)) h
    · rw [List.cons_append, List.cons_append,
        commentEnd?_cons hopen ((not_end_infix_cons hend' after).1 hend)] at h
      refine length_commentEnd?_lt hend' (hinner.imp_right fun hi => ?_) h
      by_contra hbegin
      exact hopen ((begin_infix_cons hbegin after).1 hi)
termination_by text.length

end Ends

section Reading
variable {source cs rest : List Char} {p : Nat}

/-- Where the reader is in code before a comment, it is in the comment up to the first end that this
holds, and in code again behind it. So a comment is kept out as a whole exactly if no other one
begins before that end. -/
theorem comment_until_first_end (hmode : modeAt .code source p = .code)
    (hopen : source.drop p = '/' :: '*' :: cs) (hclose : commentEnd? 0 cs = some rest) :
    ∃ text after, cs = text ++ ['*', '/'] ++ after ∧ ¬['*', '/'] <:+: text ∧ rest <:+ after ∧
      (after = rest ↔ ¬['/', '*'] <:+: text ++ ['*']) ∧
      (∀ keep i c, (i, c) ∈ keptChars keep source 0 → i < p ∨ p + (text.length + 4) ≤ i) ∧
      (marked source).drop (p + (text.length + 4)) = marked after := by
  obtain ⟨text, after, rfl, htext⟩ := exists_first_end (end_infix_of_commentEnd? hclose)
  have hmark : (marked source).drop p =
      (['/', '*'] ++ (text ++ ['*', '/'])).map (·, .comment) ++ marked after := by
    rw [marked, drop_mark, hmode, hopen]
    exact Reads.mark_eq (reads_token (t := .blockComment text htext) trivial)
  have hiff : after = rest ↔ ¬['/', '*'] <:+: text ++ ['*'] := by
    refine ⟨fun heq hbegin => ?_, fun hbegin => ?_⟩
    · have hlength := length_commentEnd?_lt htext (.inr hbegin) hclose
      simp [heq] at hlength
    · exact Option.some.inj ((commentEnd?_of_first_end htext hbegin after).symm.trans hclose)
  refine ⟨text, after, rfl, htext, ?_, hiff, fun keep i c hkept => ?_, ?_⟩
  · by_cases hbegin : ['/', '*'] <:+: text ++ ['*']
    · exact List.suffix_of_suffix_length_le (commentEnd?_suffix hclose) (List.suffix_append _ _)
        (length_commentEnd?_lt htext (.inr hbegin) hclose).le
    · exact (hiff.2 hbegin) ▸ List.suffix_refl _
  · obtain ⟨r, hr, hkeep⟩ := mem_keptChars.1 hkept
    by_contra hinside
    obtain ⟨k, rfl⟩ := Nat.exists_eq_add_of_le (Nat.le_of_not_lt fun hi => hinside (.inl hi))
    have hk : k < (['/', '*'] ++ (text ++ ['*', '/'])).length := by
      simp only [List.length_append, List.length_cons, List.length_nil]
      omega
    rw [← List.getElem?_drop, hmark, List.getElem?_append_left (by rwa [List.length_map]),
      List.getElem?_map, Option.map_eq_some_iff] at hr
    obtain ⟨d, -, hd⟩ := hr
    obtain rfl : Region.comment = r := congrArg Prod.snd hd
    simp [Region.isKept] at hkeep
  · rw [← List.drop_drop, hmark]
    exact List.drop_left' (by simp)

def nestedText : List Char := "/* a /* b */ c */".toList

theorem comment_until_first_end_nestedText :
    commentEnd? 0 (nestedText.drop 2) = some [] ∧
    ∃ text after, nestedText.drop 2 = text ++ ['*', '/'] ++ after ∧ ¬['*', '/'] <:+: text ∧
      (after = [] ↔ ¬['/', '*'] <:+: text ++ ['*']) ∧
      (marked nestedText).drop (0 + (text.length + 4)) = marked after := by
  have hclose : commentEnd? 0 (nestedText.drop 2) = some [] := by decide
  obtain ⟨text, after, heq, htext, -, hiff, -, hmarked⟩ :=
    comment_until_first_end (p := 0) (rfl : modeAt .code nestedText 0 = .code) rfl hclose
  exact ⟨hclose, text, after, heq, htext, hiff, hmarked⟩

/-- Of a comment that holds another one, not all is kept out. -/
theorem keptChars_nestedText :
    ¬∀ (source cs rest : List Char) (p : Nat), modeAt .code source p = .code →
      source.drop p = '/' :: '*' :: cs → commentEnd? 0 cs = some rest →
      ∀ i c, (i, c) ∈ keptChars false source 0 → i < p ∨ source.length ≤ i + rest.length := by
  intro h
  have hkept := h nestedText (nestedText.drop 2) [] 0 rfl rfl (by decide) 13 'c' (by decide)
  exact absurd hkept (by decide)

end Reading

end KotlinSchema.Source
