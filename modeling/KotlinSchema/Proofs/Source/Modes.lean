import KotlinSchema.Source.Region

/-! The reader of regions can be stopped and restarted. What it does from an offset on depends on
its mode there and on the text from there on, and a character of code is read in the mode in which
every text begins. What follows a character matters only where it may continue a delimiter. -/

namespace KotlinSchema.Source

/-- Two texts that begin alike as far as delimiters are concerned. -/
structure LooksLike (a b : List Char) : Prop where
  slash : a.head? = some '/' ↔ b.head? = some '/'
  star : a.head? = some '*' ↔ b.head? = some '*'
  quote : a.head? = some '"' ↔ b.head? = some '"'
  quotes : a.take 2 = ['"', '"'] ↔ b.take 2 = ['"', '"']

theorem take_two_eq_iff {l : List Char} {a b : Char} :
    l.take 2 = [a, b] ↔ ∃ rest, l = a :: b :: rest := by
  rcases l with _ | ⟨x, _ | ⟨y, l⟩⟩ <;> simp

theorem step_code_eq (c : Char) (rest : List Char) :
    step .code c rest =
      if c = '/' ∧ rest.head? = some '/' then (.comment, .lineComment)
      else if c = '/' ∧ rest.head? = some '*' then (.comment, .blockOpening)
      else if c = '"' ∧ rest.take 2 = ['"', '"'] then (.literal, .rawSecond)
      else if c = '"' ∨ c = '\'' then (.literal, .quoted c)
      else (.code, .code) := by
  unfold step
  split <;> grind [List.head?_eq_some_iff, take_two_eq_iff]

theorem step_blockComment_eq (c : Char) (rest : List Char) :
    step .blockComment c rest =
      (.comment, if c = '*' ∧ rest.head? = some '/' then .blockClosing else .blockComment) := by
  unfold step
  split <;> grind [List.head?_eq_some_iff, take_two_eq_iff]

theorem step_raw_eq (c : Char) (rest : List Char) :
    step .raw c rest =
      (.literal, if c = '"' ∧ rest.take 2 = ['"', '"'] then .rawClosing else .raw) := by
  unfold step
  split <;> grind [List.head?_eq_some_iff, take_two_eq_iff]

theorem step_rawClosing_eq (c : Char) (rest : List Char) :
    step .rawClosing c rest =
      (.literal, if rest.head? = some '"' then .rawClosing else .code) := by
  unfold step
  split <;> grind [List.head?_eq_some_iff, take_two_eq_iff]

theorem step_congr {a b : List Char} (h : LooksLike a b) (mode : Mode) (c : Char) :
    step mode c a = step mode c b := by
  cases mode with
  | code => simp only [step_code_eq, h.slash, h.star, h.quotes]
  | blockComment => simp only [step_blockComment_eq, h.slash]
  | raw => simp only [step_raw_eq, h.quotes]
  | rawClosing => simp only [step_rawClosing_eq, h.quote]
  | _ => rfl

theorem step_region_code {mode : Mode} {c : Char} {rest : List Char}
    (h : (step mode c rest).1 = .code) : mode = .code ∧ (step mode c rest).2 = .code := by
  fun_cases step mode c rest <;> simp_all [step]

/-- The mode before the character at an offset. -/
def modeAt : Mode → List Char → Nat → Mode
  | mode, _, 0 => mode
  | mode, [], _ + 1 => mode
  | mode, c :: rest, n + 1 => modeAt (step mode c rest).2 rest n

theorem drop_mark (mode : Mode) (source : List Char) (n : Nat) :
    (mark mode source).drop n = mark (modeAt mode source n) (source.drop n) := by
  fun_induction modeAt mode source n with
  | case1 source mode => rfl
  | case2 mode n => rfl
  | case3 mode c rest n ih => exact ih

theorem modeAt_succ {mode : Mode} {source : List Char} {n : Nat} {c : Char} {rest : List Char}
    (h : source.drop n = c :: rest) :
    modeAt mode source (n + 1) = (step (modeAt mode source n) c rest).2 := by
  fun_induction modeAt mode source n with
  | case1 source mode =>
    rw [show source = c :: rest from h, modeAt, modeAt]
  | case2 mode n => simp at h
  | case3 mode d ds n ih => exact ih h

section Code
variable {source : List Char} {p : Nat} {c : Char}

theorem drop_eq_of_marked (h : (marked source)[p]? = some (c, .code)) :
    ∃ rest, source.drop p = c :: rest ∧ (step (modeAt .code source p) c rest).1 = .code := by
  have hd : (mark (modeAt .code source p) (source.drop p))[0]? = some (c, .code) := by
    rw [← drop_mark, List.getElem?_drop, Nat.add_zero]
    exact h
  cases hs : source.drop p with
  | nil => simp [hs] at hd
  | cons d rest =>
    simp only [hs, mark_cons, List.getElem?_cons_zero, Option.some.injEq, Prod.mk.injEq] at hd
    obtain ⟨rfl, hd⟩ := hd
    exact ⟨rest, rfl, hd⟩

theorem getElem?_of_marked {r : Region} (h : (marked source)[p]? = some (c, r)) :
    source[p]? = some c := by
  rw [← map_fst_mark .code source, List.getElem?_map, ← marked, h]
  rfl

/-- Reading that begins at a character of code sees what the reading of the whole text sees. -/
theorem marked_drop (h : (marked source)[p]? = some (c, .code)) :
    marked (source.drop p) = (marked source).drop p := by
  obtain ⟨rest, -, hstep⟩ := drop_eq_of_marked h
  rw [marked, marked, drop_mark, (step_region_code hstep).1]

theorem marked_drop_succ (h : (marked source)[p]? = some (c, .code)) :
    marked (source.drop (p + 1)) = (marked source).drop (p + 1) := by
  obtain ⟨rest, hrest, hstep⟩ := drop_eq_of_marked h
  rw [marked, marked, drop_mark, modeAt_succ hrest, (step_region_code hstep).2]

end Code

theorem looksLike_append {c : Char} (h₁ : c ≠ '/') (h₂ : c ≠ '*') (h₃ : c ≠ '"')
    (a b : List Char) : LooksLike (a ++ c :: b) a := by
  rcases a with _ | ⟨x, _ | ⟨y, a⟩⟩ <;> constructor <;> simp_all

theorem mark_append {c : Char} (h₁ : c ≠ '/') (h₂ : c ≠ '*') (h₃ : c ≠ '"') (mode : Mode)
    (a b : List Char) :
    mark mode (a ++ c :: b) = mark mode a ++ mark (modeAt mode a a.length) (c :: b) := by
  induction a generalizing mode with
  | nil => rfl
  | cons x a ih =>
    simp only [List.cons_append, mark_cons, List.length_cons, modeAt,
      step_congr (looksLike_append h₁ h₂ h₃ a b), ih]

end KotlinSchema.Source
