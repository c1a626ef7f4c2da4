import KotlinSchema.Proofs.Parsing.Faults
import KotlinSchema.Proofs.Source.Bodies
import KotlinSchema.Proofs.Source.Stretches

/-! Text belongs to one declaration. Bodies are nested or disjoint, and of two nested ones the outer
one is read with the inner one blanked; so the members of a declaration are not also read as those
of a declaration around it. -/

namespace KotlinSchema
open Text Source

section Nested
variable {ms : List Marked} {depth k n : Nat} {level : Int} {c : Char}

theorem isBlanked_of_closing (hlow : 1 ≤ level) (hhigh : level ≤ depth)
    (hclose : closingOffset? '{' '}' level ms = some k) (hn : n < k)
    (hc : (blankNested depth ms)[n]? = some c) : IsBlanked c := by
  induction ms generalizing depth level k n with
  | nil => simp [blankNested] at hc
  | cons m ms ih =>
    obtain ⟨outer, rfl⟩ := Nat.exists_eq_succ_of_ne_zero (by omega : depth ≠ 0)
    rcases closingOffset?_cons_cases hclose with ⟨-, -, rfl⟩ | ⟨hopen, i, hi, rfl⟩
    · simp at hn
    cases n with
    | zero => exact isBlanked_of_succ (by rwa [List.head?_eq_getElem?])
    | succ n =>
      rw [blankNested] at hc
      rcases depthChange_cases (by decide : '{' ≠ '}') m with ⟨hm, hd⟩ | ⟨hm, hd⟩ | ⟨ho, hc', hd⟩
      · rw [if_pos hm] at hc
        rw [hd] at hi
        exact ih (by omega) (by omega) hi (by omega) hc
      · rw [if_neg (by simp [hm]), if_pos hm] at hc
        rw [hd] at hi hopen
        have hlevel : level - 1 ≠ 0 := fun h => hopen ⟨hm, by omega⟩
        exact ih (by omega) (by omega) hi (by omega) hc
      · rw [if_neg ho, if_neg hc'] at hc
        rw [hd] at hi
        exact ih (by omega) (by omega) hi (by omega) hc

theorem exists_closing_of_nested {i : Nat} (hclose : closingOffset? '{' '}' 1 ms = some k)
    (hi : i < k) (hopen : ms[i]? = some ('{', .code)) :
    ∃ j, i + 1 + j < k ∧ closingOffset? '{' '}' 1 (ms.drop (i + 1)) = some j := by
  obtain ⟨j, hj, hfrom⟩ := closingOffset?_nested (by decide) (Int.le_refl 1) hclose hi hopen
  rw [drop_eq_of_getElem? hopen, closingOffset?_of_opening (by decide),
    Option.map_eq_some_iff] at hfrom
  obtain ⟨j, hafter, rfl⟩ := hfrom
  exact ⟨j, by omega, hafter⟩

theorem isBlanked_of_nested {i : Nat} (hopen : ms[i]? = some ('{', .code))
    (hclose : closingOffset? '{' '}' 1 (ms.drop (i + 1)) = some k) (hn : n < k)
    (hc : (blankNested depth ms)[i + 1 + n]? = some c) : IsBlanked c := by
  have hdrop := drop_blankNested depth i ms
  generalize openBlocks depth (ms.take i) = depth' at hdrop
  have hat : (blankNested (depth' + 1) (ms.drop (i + 1)))[n]? = some c := by
    rw [← hc, Nat.add_assoc, ← List.getElem?_drop, hdrop, drop_eq_of_getElem? hopen, blankNested,
      if_pos rfl, Nat.add_comm 1 n, List.getElem?_cons_succ]
  exact isBlanked_of_closing (Int.le_refl 1) (by omega) hclose hn hat

end Nested

section Members
variable {before : Option Char} {cs rest : List Char}

theorem nameAt_of_propertyText? {p : PropertyText} (h : propertyText? before cs = some (p, rest)) :
    p.nameAt <:+ cs ∧ ∃ rest', takeWord1? p.nameAt = some (p.name, rest') := by
  simp only [propertyText?] at h
  split at h
  · simp only [Option.bind_eq_bind, Option.bind_eq_some_iff] at h
    obtain ⟨nameAt, hkeyword, ⟨name, afterName⟩, hname, h⟩ := h
    have hsuffix : nameAt <:+ cs := by
      calc nameAt
        _ <:+ (optionalKeyword ["override"] (annotationRun cs).2).2 := by
          rcases Option.or_eq_some_iff.1 hkeyword with hval | ⟨-, hvar⟩
          · exact keyword?_suffix hval
          · exact keyword?_suffix hvar
        _ <:+ (annotationRun cs).2 := optionalKeyword_suffix _ _
        _ <:+ cs := annotationRun_suffix cs
    split at h
    · obtain ⟨⟨declared, delegation⟩, -, h⟩ := Option.bind_eq_some_iff.1 h
      obtain ⟨rfl, -⟩ := Prod.mk.inj (Option.some.inj h)
      exact ⟨hsuffix, afterName, hname⟩
    · obtain ⟨delegation, -, h⟩ := Option.bind_eq_some_iff.1 h
      obtain ⟨rfl, -⟩ := Prod.mk.inj (Option.some.inj h)
      exact ⟨hsuffix, afterName, hname⟩
  · simp at h

theorem nameAt_of_entryText? {e : EntryText} (h : entryText? before cs = some (e, rest)) :
    e.nameAt <:+ cs ∧ ∃ rest', takeWord1? e.nameAt = some (e.name, rest') := by
  obtain ⟨hnameAt, afterName, _, _, hname, -⟩ := exists_of_entryText? h
  exact ⟨hnameAt ▸ annotationRun_suffix cs, afterName, hname⟩

theorem isPrefix_entrySection (text : List Char) : entrySection text <+: text := by
  have h := (List.takeWhile_prefix (l := marked text)
    fun m => !(m.1 == ';' && m.2 == .code)).map Prod.fst
  rwa [marked, map_fst_mark] at h

end Members

namespace Source.Declaration
variable {source : List Char} {origin : Option String} {d d' : Declaration} {k : Nat} {c c' : Char}

def text (d : Declaration) (source : List Char) : Except UnbalancedBlock (List Char) := do
  memberText (← block source d.bodyOffset)

/-- The text of a declaration shows a character at an offset of the source. -/
def Shows (d : Declaration) (source : List Char) (k : Nat) (c : Char) : Prop :=
  ∃ text n, d.text source = .ok text ∧ k = d.bodyOffset + 1 + n ∧ text[n]? = some c

/-- A member of a declaration is read whose name stands at an offset of the source. -/
def NamesMember (d : Declaration) (source : List Char) (k : Nat) : Prop :=
  ∃ text, d.text source = .ok text ∧
    match d.kind with
    | .classLike => ∃ p ∈ findAll propertyText? text,
        k = d.bodyOffset + 1 + offsetOf text p.nameAt
    | .enumLike => ∃ e ∈ findAll entryText? (entrySection text),
        k = d.bodyOffset + 1 + offsetOf (entrySection text) e.nameAt

theorem exists_of_text {text : List Char} (h : (marked source)[d.bodyOffset]? = some ('{', .code))
    (htext : d.text source = .ok text) :
    ∃ stop, closingOffset? '{' '}' 1 ((marked source).drop (d.bodyOffset + 1)) = some stop ∧
      text = blankNested 0
        ((((marked source).drop (d.bodyOffset + 1)).take stop).map (remark true)) := by
  rw [Declaration.text] at htext
  cases hb : block source d.bodyOffset with
  | error fault => simp [hb, bind, Except.bind] at htext
  | ok body =>
    obtain ⟨stop, hstop, -, hbody⟩ := marked_of_block (getElem?_of_marked h) hb
    rw [marked_drop_succ h] at hstop hbody
    refine ⟨stop, hstop, ?_⟩
    simp only [hb, bind, Except.bind, memberText, maskNested] at htext
    split at htext
    · simp at htext
    · rw [← Except.ok.inj htext, marked_mask, hbody]

theorem exists_text (h : (marked source)[d.bodyOffset]? = some ('{', .code))
    (hclosed : ∃ stop, Closes source d.bodyOffset stop) : ∃ text, d.text source = .ok text := by
  obtain ⟨stop, hstop⟩ := hclosed
  have hb := block_eq_map source d.bodyOffset
  rw [(blockEnd_eq_ok_iff h).2 hstop] at hb
  obtain ⟨text, htext⟩ := (maskNested_of_block (getElem?_of_marked h) hb (.inr rfl)).1
  refine ⟨text, ?_⟩
  rw [Declaration.text, hb]
  exact htext

/-- Of two bodies that overlap the one that begins first is blanked where they do. -/
theorem isBlanked_of_shows (h : (marked source)[d.bodyOffset]? = some ('{', .code))
    (h' : (marked source)[d'.bodyOffset]? = some ('{', .code))
    (hlt : d.bodyOffset < d'.bodyOffset) (hc : d.Shows source k c)
    (hc' : d'.Shows source k c') : IsBlanked c := by
  obtain ⟨text, n, htext, hk, hn⟩ := hc
  obtain ⟨text', n', htext', hk', hn'⟩ := hc'
  obtain ⟨stop, hstop, rfl⟩ := exists_of_text h htext
  obtain ⟨stop', hstop', rfl⟩ := exists_of_text h' htext'
  have hstopLe : n < stop ∧ n' < stop' := by
    have hlength := (List.getElem?_eq_some_iff.1 hn).1
    have hlength' := (List.getElem?_eq_some_iff.1 hn').1
    simp only [length_blankNested, List.length_map, List.length_take] at hlength hlength'
    omega
  obtain ⟨i, hi⟩ := Nat.exists_eq_add_of_lt hlt
  obtain rfl : n = i + 1 + n' := by omega
  have hoffset : d'.bodyOffset = d.bodyOffset + 1 + i := by omega
  rw [hoffset] at h' hstop'
  generalize hbody : (marked source).drop (d.bodyOffset + 1) = ms at hstop hn
  have hopen : ms[i]? = some ('{', .code) := by
    rw [← hbody, List.getElem?_drop]
    exact h'
  -- The inner block is closed by one brace, and in the outer body before its end.
  obtain ⟨j, hj, hclose⟩ := exists_closing_of_nested hstop (by omega) hopen
  obtain rfl : j = stop' := by
    rw [← hbody, List.drop_drop, ← Nat.add_assoc] at hclose
    exact Option.some.inj (hclose.symm.trans hstop')
  refine isBlanked_of_nested (k := j) ?_ ?_ hstopLe.2 hn
  · rw [List.getElem?_map, List.getElem?_take_of_lt (by omega), hopen]
    rfl
  · rw [← List.map_drop, closingOffset?_remark (by decide) (by decide), List.drop_take]
    exact closingOffset?_take hclose (by omega)

theorem exists_shows_of_namesMember (h : d.NamesMember source k) :
    ∃ c, isWord c = true ∧ d.Shows source k c := by
  obtain ⟨text, htext, hmember⟩ := h
  have shows_of_place : ∀ {area name rest place : List Char}, area <+: text → place <:+ area →
      takeWord1? place = some (name, rest) →
      ∃ c, isWord c = true ∧ d.Shows source (d.bodyOffset + 1 + offsetOf area place) c := by
    intro area name rest place hprefix hsuffix hword
    obtain ⟨hne, hchars, hplace⟩ := eq_append_of_takeWord1? hword
    obtain ⟨c, name, rfl⟩ := List.exists_cons_of_ne_nil hne
    have hc : area[offsetOf area place]? = some c := by
      rw [getElem?_offsetOf hsuffix, hplace]
      rfl
    refine ⟨c, hchars c List.mem_cons_self, text, _, htext, rfl, ?_⟩
    obtain ⟨after, rfl⟩ := hprefix
    rw [List.getElem?_append_left (List.getElem?_eq_some_iff.1 hc).1, hc]
  cases hkind : d.kind with
  | classLike =>
    simp only [hkind] at hmember
    obtain ⟨p, hp, rfl⟩ := hmember
    obtain ⟨_, place, _, hplace, hread⟩ := mem_findFrom hp
    obtain ⟨hsuffix, rest, hword⟩ := nameAt_of_propertyText? hread
    exact shows_of_place (List.prefix_refl text) (hsuffix.trans hplace) hword
  | enumLike =>
    simp only [hkind] at hmember
    obtain ⟨e, he, rfl⟩ := hmember
    obtain ⟨_, place, _, hplace, hread⟩ := mem_findFrom he
    obtain ⟨hsuffix, rest, hword⟩ := nameAt_of_entryText? hread
    exact shows_of_place (isPrefix_entrySection text) (hsuffix.trans hplace) hword

/-- Text is read for one declaration at most. Any two declarations that a source is found to have,
if the braces that open them are both closed, have texts in which their members are read; at no
offset do both texts show a character other than a blank or a brace, and at no offset is the name
read of a member of the one and of a member of the other. -/
theorem text_disjoint {i j : Nat} (hi : (scan source origin)[i]? = some d)
    (hj : (scan source origin)[j]? = some d') (hne : i ≠ j)
    (hclosed : ∃ stop, Closes source d.bodyOffset stop)
    (hclosed' : ∃ stop, Closes source d'.bodyOffset stop) :
    (∃ text, d.text source = .ok text) ∧ (∃ text, d'.text source = .ok text) ∧
    (∀ k c, isBlank c = false → c ≠ '{' → c ≠ '}' →
      d.Shows source k c → ¬d'.Shows source k c) ∧
    ∀ k, d.NamesMember source k → ¬d'.NamesMember source k := by
  have h := brace_of_mem_scan (List.mem_of_getElem? hi)
  have h' := brace_of_mem_scan (List.mem_of_getElem? hj)
  have hoffset : d.bodyOffset ≠ d'.bodyOffset := by
    obtain ⟨hilt, rfl⟩ := List.getElem?_eq_some_iff.1 hi
    obtain ⟨hjlt, rfl⟩ := List.getElem?_eq_some_iff.1 hj
    have hinj := (nodup_bodyOffset source origin).injective_get
    exact fun heq => hne (Fin.mk.inj (@hinj ⟨i, by simpa using hilt⟩ ⟨j, by simpa using hjlt⟩
      (by simpa using heq)))
  -- One of the two bodies begins first.
  have hblanked : ∀ {k c c'}, d.Shows source k c → d'.Shows source k c' →
      IsBlanked c ∨ IsBlanked c' := by
    intro k c c' hc hc'
    rcases Nat.lt_or_gt_of_ne hoffset with hlt | hlt
    · exact .inl (isBlanked_of_shows h h' hlt hc hc')
    · exact .inr (isBlanked_of_shows h' h hlt hc' hc)
  refine ⟨exists_text h hclosed, exists_text h' hclosed', ?_, ?_⟩
  · intro k c hblank hopening hclosing hc hc'
    rcases or_self_iff.1 (hblanked hc hc') with rfl | rfl | rfl | rfl
    · exact absurd hblank (by decide)
    · exact absurd hblank (by decide)
    · exact hopening rfl
    · exact hclosing rfl
  · intro k hk hk'
    obtain ⟨c, hc, hshows⟩ := exists_shows_of_namesMember hk
    obtain ⟨c', hc', hshows'⟩ := exists_shows_of_namesMember hk'
    rcases hblanked hshows hshows' with hblank | hblank
    · exact not_isBlanked_of_isWord hc hblank
    · exact not_isBlanked_of_isWord hc' hblank

def nestedSource : List Char :=
  "class A : Base() \x7b\n  val a by value<B>()\n  class B : Base() \x7b val b by value() \x7d\n\x7d\n".toList

def outerDeclaration : Declaration where
  kind := .classLike
  name := "A"
  bodyOffset := 17
  line := 1
  supertype := some "Base"

def innerDeclaration : Declaration where
  kind := .classLike
  name := "B"
  bodyOffset := 60
  line := 3
  supertype := some "Base"

theorem text_disjoint_nestedSource :
    (scan nestedSource none)[0]? = some outerDeclaration ∧
    (scan nestedSource none)[1]? = some innerDeclaration ∧
    Closes nestedSource 17 81 ∧ Closes nestedSource 60 79 ∧
    ∀ k, outerDeclaration.NamesMember nestedSource k →
      ¬innerDeclaration.NamesMember nestedSource k := by
  have hscan : scan nestedSource none = [outerDeclaration, innerDeclaration] :=
    scan_eq_of_perm (by decide +kernel) (by decide)
  have houter : (scan nestedSource none)[0]? = some outerDeclaration := by rw [hscan]; rfl
  have hinner : (scan nestedSource none)[1]? = some innerDeclaration := by rw [hscan]; rfl
  have hclosed : Closes nestedSource 17 81 :=
    (blockEnd_eq_ok_iff (by decide)).1 (by decide +kernel)
  have hclosed' : Closes nestedSource 60 79 :=
    (blockEnd_eq_ok_iff (by decide)).1 (by decide +kernel)
  exact ⟨houter, hinner, hclosed, hclosed',
    (text_disjoint houter hinner (by decide) ⟨81, hclosed⟩ ⟨79, hclosed'⟩).2.2.2⟩

end Source.Declaration
end KotlinSchema
