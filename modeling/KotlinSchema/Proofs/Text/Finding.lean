import KotlinSchema.Text.Recogniser
import Mathlib.Data.List.Infix

/-! Searches in texts that are put together from pieces: where a recogniser accepts nothing, and
what is found when what it accepts is known piece by piece. -/

namespace KotlinSchema.Text
variable {α β γ : Type} {read? : Option Char → List Char → Option (α × List Char)}
  {a b rest : List Char} {before : Option Char}

theorem between_append (a rest : List Char) : between (a ++ rest) rest = a := by
  rw [between, List.length_append, Nat.add_sub_cancel, List.take_left]

theorem suffix_append_cases {c : List Char} (h : c <:+ a ++ b) :
    c <:+ b ∨ ∃ a', a' ≠ [] ∧ a' <:+ a ∧ c = a' ++ b := by
  obtain ⟨start, hstart⟩ := h
  rcases List.append_eq_append_iff.1 hstart with ⟨a', ha, hc⟩ | ⟨b', -, hb⟩
  · cases a' with
    | nil => exact .inl (by simp [hc])
    | cons x a' => exact .inr ⟨x :: a', by simp, ⟨start, ha.symm⟩, hc⟩
  · exact .inl ⟨b', hb.symm⟩

theorem forall_suffix_append {P : List Char → Prop}
    (ha : ∀ c, c <:+ a → c ≠ [] → P (c ++ (b ++ rest)))
    (hb : ∀ c, c <:+ b → c ≠ [] → P (c ++ rest)) :
    ∀ c, c <:+ a ++ b → c ≠ [] → P (c ++ rest) := by
  intro c hc hne
  rcases suffix_append_cases hc with hc | ⟨a', hne', ha', rfl⟩
  · exact hb c hc hne
  · rw [List.append_assoc]
    exact ha a' ha' hne'

theorem getLast?_cons_or (c : Char) (a : List Char) (before : Option Char) :
    (c :: a).getLast?.or before = a.getLast?.or (some c) := by
  rw [List.getLast?_cons]
  cases a.getLast? <;> rfl

/-- Nothing is read at any place in a gap that stands between `before` and the rest of a text. -/
def Skipped (read? : Option Char → List Char → Option (α × List Char)) (before : Option Char)
    (gap rest : List Char) : Prop :=
  ∀ a b, gap = a ++ b → b ≠ [] → read? (a.getLast?.or before) (b ++ rest) = none

theorem skipped_nil : Skipped read? before [] rest :=
  fun _ _ h hne => absurd (List.append_eq_nil_iff.1 h.symm).2 hne

theorem skipped_cons {c : Char} :
    Skipped read? before (c :: a) rest ↔
      read? before (c :: (a ++ rest)) = none ∧ Skipped read? (some c) a rest := by
  constructor
  · intro h
    refine ⟨h [] (c :: a) rfl (List.cons_ne_nil c a), fun start place hsplit hne => ?_⟩
    rw [← getLast?_cons_or c start before]
    exact h (c :: start) place (congrArg (c :: ·) hsplit) hne
  · rintro ⟨hfirst, h⟩ start place hsplit hne
    cases start with
    | nil =>
      rw [List.nil_append] at hsplit
      exact hsplit ▸ hfirst
    | cons d start =>
      rw [List.cons_append, List.cons.injEq] at hsplit
      obtain ⟨rfl, hsplit⟩ := hsplit
      rw [getLast?_cons_or]
      exact h start place hsplit hne

theorem findFrom_of_skipped (h : Skipped read? before a rest) :
    findFrom read? 0 before (a ++ rest) = findFrom read? 0 (a.getLast?.or before) rest := by
  induction a generalizing before with
  | nil => rfl
  | cons c a ih =>
    obtain ⟨hnone, h⟩ := skipped_cons.1 h
    rw [List.cons_append, findFrom_none hnone, ih h, getLast?_cons_or]

theorem findFrom_eq_nil_iff : findFrom read? 0 before a = [] ↔ Skipped read? before a [] := by
  induction a generalizing before with
  | nil => exact iff_of_true rfl skipped_nil
  | cons c a ih =>
    rw [skipped_cons, List.append_nil, ← ih]
    cases hread : read? before (c :: a) with
    | none => simp [findFrom_none hread]
    | some found => simp [findFrom_some hread]

/-- Nothing is read at any place in a text, before what follows it. -/
def Quiet (read? : Option Char → List Char → Option (α × List Char)) (a rest : List Char) : Prop :=
  ∀ c, c <:+ a → c ≠ [] → ∀ before, read? before (c ++ rest) = none

theorem quiet_append (ha : Quiet read? a (b ++ rest)) (hb : Quiet read? b rest) :
    Quiet read? (a ++ b) rest :=
  forall_suffix_append (P := fun place => ∀ before, read? before place = none) ha hb

theorem findFrom_of_quiet (h : Quiet read? a rest) (before : Option Char) :
    findFrom read? 0 before (a ++ rest) = findFrom read? 0 (a.getLast?.or before) rest :=
  findFrom_of_skipped fun start place hsplit hne => h place ⟨start, hsplit.symm⟩ hne _

theorem findFrom_skip (a b : List Char) (before : Option Char) :
    findFrom read? a.length before (a ++ b) = findFrom read? 0 (a.getLast?.or before) b := by
  induction a generalizing before with
  | nil => rfl
  | cons c a ih =>
    rw [List.length_cons, List.cons_append, findFrom, ih, getLast?_cons_or]

theorem findFrom_of_read {x : α} (hne : a ≠ []) (h : read? before (a ++ b) = some (x, b)) :
    findFrom read? 0 before (a ++ b) = x :: findFrom read? 0 a.getLast? b := by
  obtain ⟨c, a, rfl⟩ := List.exists_cons_of_ne_nil hne
  rw [List.cons_append] at h ⊢
  rw [findFrom_some h, List.length_append, Nat.add_sub_cancel, findFrom_skip, List.getLast?_cons]
  cases a.getLast? <;> rfl

theorem map_findFrom_items {head tail : β → List Char} {admits : Option Char → Prop}
    {g : α → γ} {value : β → γ} (hne : ∀ x, head x ≠ [])
    (hread : ∀ (x : β) (xs : List β) (before : Option Char), admits before → ∃ found,
      read? before (head x ++ (tail x ++ xs.flatMap fun x => head x ++ tail x)) =
        some (found, tail x ++ xs.flatMap fun x => head x ++ tail x) ∧ g found = value x)
    (hquiet : ∀ x rest, Quiet read? (tail x) rest)
    (hadmits : ∀ x, admits ((tail x).getLast?.or (head x).getLast?)) (xs : List β)
    (hbefore : admits before) :
    (findFrom read? 0 before (xs.flatMap fun x => head x ++ tail x)).map g = xs.map value := by
  induction xs generalizing before with
  | nil => rfl
  | cons x xs ih =>
    rw [List.flatMap_cons, List.append_assoc]
    obtain ⟨found, hfound, hvalue⟩ := hread x xs before hbefore
    rw [findFrom_of_read (hne x) hfound, findFrom_of_quiet (hquiet x _), List.map_cons, hvalue,
      ih (hadmits x), List.map_cons]

/-- What a search comes to: text that it passes over, text that it reads, and what that is read
as. -/
structure Found (α : Type) where
  gap : List Char
  chars : List Char
  item : α

/-- A text as what a search comes to in it, and a gap after that. -/
inductive Finds (read? : Option Char → List Char → Option (α × List Char)) :
    Option Char → List Char → List (Found α) → Prop where
  | nil {before : Option Char} {gap : List Char} :
    Skipped read? before gap [] → Finds read? before gap []
  | cons {before : Option Char} {m : Found α} {ms : List (Found α)} {rest : List Char} :
    Skipped read? before m.gap (m.chars ++ rest) → m.chars ≠ [] →
    read? (m.gap.getLast?.or before) (m.chars ++ rest) = some (m.item, rest) →
    Finds read? m.chars.getLast? rest ms → Finds read? before (m.gap ++ (m.chars ++ rest)) (m :: ms)

theorem Finds.findFrom_eq {text : List Char} {ms : List (Found α)}
    (h : Finds read? before text ms) : findFrom read? 0 before text = ms.map (·.item) := by
  induction h with
  | @nil before gap hgap =>
    rw [← List.append_nil gap, findFrom_of_skipped hgap, findFrom, List.map_nil]
  | cons hgap hne hread _ ih =>
    rw [findFrom_of_skipped hgap, findFrom_of_read hne hread, ih, List.map_cons]

theorem Finds.exists_cons {c : Char} {cs : List Char} {ms : List (Found α)}
    (h : Finds read? (some c) cs ms) (hnone : read? before (c :: cs) = none) :
    ∃ ms, Finds read? before (c :: cs) ms := by
  cases h with
  | nil hgap => exact ⟨[], .nil (skipped_cons.2 ⟨by rwa [List.append_nil], hgap⟩)⟩
  | @cons _ m ms rest hgap hne hread hrest =>
    have hgap' : Skipped read? before (c :: m.gap) (m.chars ++ rest) :=
      skipped_cons.2 ⟨hnone, hgap⟩
    rw [← getLast?_cons_or c m.gap before] at hread
    exact ⟨_, Finds.cons (m := ⟨c :: m.gap, m.chars, m.item⟩) hgap' hne hread hrest⟩

/-- Every text can be seen so, if each reading takes a character or more. -/
theorem exists_finds (hread : ∀ before cs a rest, read? before cs = some (a, rest) →
      ∃ chars, chars ≠ [] ∧ cs = chars ++ rest) (before : Option Char) (text : List Char) :
    ∃ ms, Finds read? before text ms := by
  cases text with
  | nil => exact ⟨[], .nil skipped_nil⟩
  | cons c cs =>
    cases hfirst : read? before (c :: cs) with
    | none =>
      obtain ⟨ms, h⟩ := exists_finds hread (some c) cs
      exact h.exists_cons hfirst
    | some found =>
      obtain ⟨a, rest⟩ := found
      obtain ⟨chars, hne, hcs⟩ := hread _ _ _ _ hfirst
      have hlength : rest.length < (c :: cs).length := by
        rw [hcs, List.length_append]
        have := List.length_pos_iff.2 hne
        omega
      obtain ⟨ms, h⟩ := exists_finds hread chars.getLast? rest
      rw [hcs] at hfirst ⊢
      exact ⟨⟨[], chars, a⟩ :: ms, Finds.cons (m := ⟨[], chars, a⟩) skipped_nil hne hfirst h⟩
termination_by text.length
decreasing_by
  · exact Nat.lt_succ_self cs.length
  · exact hlength

end KotlinSchema.Text
