import KotlinSchema.Proofs.Source.Places
import KotlinSchema.Proofs.Source.Tokens

/-! How recognisers pass text with ordinary literals. Where double quotes do nothing but delimit
such literals, recognisers see the literals that the reader of regions sees; so what they accept has
its parentheses in pairs, and they stop in code. -/

namespace KotlinSchema.Source
open Text

/-- A character of code, or a literal without parentheses; of the literals only those between double
quotes hold double quotes, and no literal is raw. -/
def Token.IsOrdinary : Token → Prop
  | .code .. => True
  | .quoted quote content .. =>
    (∀ c ∈ content, c ≠ '(' ∧ c ≠ ')') ∧ (quote = '\'' → '"' ∉ content)
  | _ => False

inductive Ordinary : List Char → Prop where
  | nil : Ordinary []
  | code {c : Char} {rest : List Char} : ¬IsQuote c → Ordinary rest → Ordinary (c :: rest)
  | quoted {c : Char} {content rest : List Char} : IsQuote c → Quotable c content →
    (∀ d ∈ content, d ≠ '(' ∧ d ≠ ')') → (c = '\'' → '"' ∉ content) → Ordinary rest →
    Ordinary (c :: (content ++ c :: rest))

theorem ordinary_of_tokens {ts : List Token} {cs : List Char} (h : Tokens ts cs)
    (hts : ∀ t ∈ ts, t.IsOrdinary) : Ordinary cs := by
  induction h with
  | nil => exact .nil
  | @cons t ts rest _ _ ih =>
    obtain ⟨ht, hrest⟩ := List.forall_mem_cons.1 hts
    cases t with
    | code c hc => exact .code hc (ih hrest)
    | quoted quote content hquote hcontent =>
      simpa [Token.chars] using Ordinary.quoted hquote hcontent ht.1 ht.2 (ih hrest)
    | _ => exact ht.elim

def parens (cs : List Char) : Int := cs.count '(' - cs.count ')'

theorem parens_append (a b : List Char) : parens (a ++ b) = parens a + parens b := by
  simp only [parens, List.count_append]
  omega

theorem parens_of_forall {a : List Char} (h : ∀ c ∈ a, c ≠ '(' ∧ c ≠ ')') : parens a = 0 := by
  have hopen : '(' ∉ a := fun hc => (h _ hc).1 rfl
  have hclose : ')' ∉ a := fun hc => (h _ hc).2 rfl
  simp [parens, List.count_eq_zero_of_not_mem hopen, List.count_eq_zero_of_not_mem hclose]

/-- From ordinary text to ordinary text something is passed that opens so many parentheses. -/
def Passes (n : Int) (cs rest : List Char) : Prop :=
  ∃ a, cs = a ++ rest ∧ Ordinary rest ∧ parens a = n

section Texts
variable {m n : Int} {c : Char} {a cs mid rest content w : List Char}

theorem Passes.refl (h : Ordinary cs) : Passes 0 cs cs := ⟨[], rfl, h, rfl⟩

theorem Passes.trans (h : Passes m cs mid) (hrest : Passes n mid rest) :
    Passes (m + n) cs rest := by
  obtain ⟨a, rfl, -, ha⟩ := h
  obtain ⟨b, rfl, hordinary, hb⟩ := hrest
  exact ⟨a ++ b, (List.append_assoc ..).symm, hordinary, by rw [parens_append, ha, hb]⟩

theorem Passes.ordinary (h : Passes n cs rest) : Ordinary rest := by
  obtain ⟨-, -, hordinary, -⟩ := h
  exact hordinary

theorem Ordinary.tail (h : Ordinary (c :: rest)) (hc : ¬IsQuote c) : Ordinary rest := by
  cases h with
  | code _ hrest => exact hrest
  | quoted hquote => exact absurd hquote hc

theorem Ordinary.of_append (h : Ordinary (a ++ rest)) (ha : ∀ c ∈ a, ¬IsQuote c) :
    Ordinary rest := by
  induction a with
  | nil => exact h
  | cons c a ih =>
    obtain ⟨hc, ha⟩ := List.forall_mem_cons.1 ha
    exact ih (h.tail hc) ha

theorem passes_of_ne (h : Ordinary (a ++ rest))
    (ha : ∀ c ∈ a, ¬IsQuote c ∧ c ≠ '(' ∧ c ≠ ')') : Passes 0 (a ++ rest) rest :=
  ⟨a, rfl, h.of_append fun c hc => (ha c hc).1, parens_of_forall fun c hc => (ha c hc).2⟩

theorem ne_of_isWord (h : isWord c = true) : ¬IsQuote c ∧ c ≠ '(' ∧ c ≠ ')' := by
  have hparens : c ∉ ['(', ')'] := not_mem_of_class h (by decide)
  exact ⟨(isInner_of_isWord h).1, by simpa using hparens⟩

theorem ne_of_isBlank (h : isBlank c = true) : ¬IsQuote c ∧ c ≠ '(' ∧ c ≠ ')' := by
  have hparens : c ∉ ['(', ')'] := not_mem_of_class h (by decide)
  exact ⟨(isInner_of_isBlank h).1, by simpa using hparens⟩

theorem passes_skipBlanks (h : Ordinary cs) : Passes 0 cs (skipBlanks cs) := by
  obtain ⟨blanks, hblanks, hcs⟩ := exists_blanks cs
  rw [hcs] at h
  have hpasses := passes_of_ne h fun c hc => ne_of_isBlank (hblanks c hc)
  rwa [← hcs] at hpasses

theorem passes_takeWord1? (h : Ordinary cs) (hw : takeWord1? cs = some (w, rest)) :
    Passes 0 cs rest := by
  obtain ⟨-, hword, rfl⟩ := eq_append_of_takeWord1? hw
  exact passes_of_ne h fun c hc => ne_of_isWord (hword c hc)

theorem passes_opening (h : Ordinary rest) : Passes 1 ('(' :: rest) rest := ⟨['('], rfl, h, rfl⟩

theorem passes_closing (h : Ordinary rest) : Passes (-1) (')' :: rest) rest := ⟨[')'], rfl, h, rfl⟩

theorem passes_plain (h : Ordinary rest) (hc : c ≠ '(' ∧ c ≠ ')') : Passes 0 (c :: rest) rest :=
  ⟨[c], rfl, h, parens_of_forall (List.forall_mem_singleton.2 hc)⟩

theorem parens_of_quoted (hquote : IsQuote c) (hplain : ∀ d ∈ content, d ≠ '(' ∧ d ≠ ')') :
    parens (c :: (content ++ [c])) = 0 := by
  have hc : c ≠ '(' ∧ c ≠ ')' := by rcases hquote with rfl | rfl <;> decide
  refine parens_of_forall ?_
  simp only [List.forall_mem_cons, List.forall_mem_append]
  exact ⟨hc, hplain, hc, by simp⟩

theorem passes_quoted (hquote : IsQuote c) (hplain : ∀ d ∈ content, d ≠ '(' ∧ d ≠ ')')
    (hrest : Ordinary rest) : Passes 0 (c :: (content ++ c :: rest)) rest :=
  ⟨c :: (content ++ [c]), by simp, hrest, parens_of_quoted hquote hplain⟩

end Texts

section Literals
variable {c : Char} {cs rest stop content value : List Char} {literals : Nesting → Bool}
  {nesting : Nesting}

theorem literalEnd?_eq_some_iff : literalEnd? cs = some rest ↔
    ∃ content, cs = content ++ '"' :: rest ∧ Quotable '"' content ∧ '\n' ∉ content := by
  constructor
  · intro h
    fun_induction literalEnd? cs with
    | case1 => simp at h
    | case2 cs => exact ⟨[], by rw [Option.some.inj h]; rfl, .nil, by simp⟩
    | case3 => simp at h
    | case4 c cs hline ih =>
      obtain ⟨content, rfl, hcontent, hlines⟩ := ih h
      exact ⟨'\\' :: c :: content, rfl, .pair hcontent, by simp [Ne.symm hline, hlines]⟩
    | case5 => simp at h
    | case6 c cs hquote _ hother ih =>
      obtain ⟨hline, hback⟩ := not_or.1 hother
      obtain ⟨content, rfl, hcontent, hlines⟩ := ih h
      exact ⟨c :: content, rfl, .plain hquote hback hcontent, by simp [Ne.symm hline, hlines]⟩
  · rintro ⟨content, rfl, hcontent, hlines⟩
    induction hcontent with
    | nil => rfl
    | plain hquote hback _ ih =>
      rw [List.mem_cons, not_or] at hlines
      simp [literalEnd?, hback, Ne.symm hlines.1, ih hlines.2]
    | pair _ ih =>
      simp only [List.mem_cons, not_or] at hlines
      simp [literalEnd?, Ne.symm hlines.2.1, ih hlines.2.2]

theorem literalEnd?_of_quotable (h : Quotable '"' content)
    (hend : literalEnd? (content ++ '"' :: rest) = some stop) : stop = rest := by
  induction h with
  | nil => simpa [literalEnd?, eq_comm] using hend
  | plain hquote hslash _ ih =>
    rw [List.cons_append, literalEnd?] at hend
    · split at hend
      · simp at hend
      · exact ih hend
    · exact hquote
    · exact fun d ds hd => absurd hd hslash
  | pair _ ih =>
    rw [List.cons_append, List.cons_append, literalEnd?] at hend
    split at hend
    · simp at hend
    · exact ih hend

theorem groupEnd?_of_plain {a : List Char}
    (h : ∀ c ∈ a, c ≠ '(' ∧ c ≠ ')' ∧ (literals nesting = true → c ≠ '"')) (rest : List Char) :
    groupEnd? literals nesting false (a ++ rest) = groupEnd? literals nesting false rest := by
  induction a with
  | nil => rfl
  | cons c a ih =>
    obtain ⟨hopen, hclose, hquote⟩ := h c List.mem_cons_self
    have hliteral : ¬(c = '"' ∧ literals nesting = true) := fun hc => hquote hc.2 hc.1
    have hnext := ih fun d hd => h d (List.mem_cons_of_mem c hd)
    cases nesting with
    | outer => rw [List.cons_append, groupEnd?, if_neg hliteral, if_neg hopen, if_neg hclose, hnext]
    | inner => rw [List.cons_append, groupEnd?, if_neg hliteral, if_neg hopen, if_neg hclose, hnext]

theorem groupEnd?_of_quotable (h : Quotable '"' content)
    (hend : groupEnd? literals nesting true (content ++ '"' :: rest) = some stop) :
    groupEnd? literals nesting false rest = some stop := by
  induction h with
  | nil => simpa [groupEnd?] using hend
  | plain hquote hslash _ ih =>
    rw [List.cons_append, groupEnd?, if_neg hquote] at hend
    · split at hend
      · simp at hend
      · exact ih hend
    · exact fun d ds hd => absurd hd hslash
  | pair _ ih =>
    rw [List.cons_append, List.cons_append, groupEnd?] at hend
    split at hend
    · simp at hend
    · exact ih hend

theorem groupEnd?_quoted (hquote : IsQuote c) (hcontent : Quotable c content)
    (hplain : ∀ d ∈ content, d ≠ '(' ∧ d ≠ ')') (hdouble : c = '\'' → '"' ∉ content)
    (hend : groupEnd? literals nesting false (c :: (content ++ c :: rest)) = some stop) :
    groupEnd? literals nesting false rest = some stop := by
  by_cases hliteral : c = '"' ∧ literals nesting = true
  · obtain ⟨rfl, hreads⟩ := hliteral
    refine groupEnd?_of_quotable hcontent ?_
    cases nesting with
    | outer => rwa [groupEnd?, if_pos ⟨rfl, hreads⟩] at hend
    | inner => rwa [groupEnd?, if_pos ⟨rfl, hreads⟩] at hend
  · have hc : c ≠ '(' ∧ c ≠ ')' ∧ (literals nesting = true → c ≠ '"') := by
      refine ⟨?_, ?_, fun hreads hc => hliteral ⟨hc, hreads⟩⟩ <;>
        rcases hquote with rfl | rfl <;> decide
    rw [← hend, ← groupEnd?_of_plain (a := c :: (content ++ [c])) ?_ rest]
    · simp
    · simp only [List.forall_mem_cons, List.forall_mem_append]
      refine ⟨hc, fun d hd => ⟨(hplain d hd).1, (hplain d hd).2, fun hreads => ?_⟩, hc, by simp⟩
      rintro rfl
      rcases hquote with rfl | rfl
      · exact hc.2.2 hreads rfl
      · exact hdouble rfl hd

theorem groupEnd?_code_cases (hquote : ¬IsQuote c)
    (hend : groupEnd? literals nesting false (c :: cs) = some rest) :
    (c = '(' ∧ nesting = .outer ∧ groupEnd? literals .inner false cs = some rest) ∨
    (c = ')' ∧ nesting = .outer ∧ cs = rest) ∨
    (c = ')' ∧ nesting = .inner ∧ groupEnd? literals .outer false cs = some rest) ∨
    ((c ≠ '(' ∧ c ≠ ')') ∧ groupEnd? literals nesting false cs = some rest) := by
  have hliteral : ¬(c = '"' ∧ literals nesting = true) := fun hc => hquote (.inl hc.1)
  by_cases hopen : c = '('
  · subst hopen
    cases nesting with
    | outer =>
      rw [groupEnd?, if_neg hliteral, if_pos rfl] at hend
      exact .inl ⟨rfl, rfl, hend⟩
    | inner => simp [groupEnd?] at hend
  by_cases hclose : c = ')'
  · subst hclose
    cases nesting with
    | outer =>
      rw [groupEnd?, if_neg hliteral, if_neg hopen, if_pos rfl] at hend
      exact .inr (.inl ⟨rfl, rfl, Option.some.inj hend⟩)
    | inner =>
      rw [groupEnd?, if_neg hliteral, if_neg hopen, if_pos rfl] at hend
      exact .inr (.inr (.inl ⟨rfl, rfl, hend⟩))
  refine .inr (.inr (.inr ⟨⟨hopen, hclose⟩, ?_⟩))
  rw [← hend, ← groupEnd?_of_plain (a := [c]) (by simp_all [IsQuote])]
  rfl

def Nesting.depth : Nesting → Int
  | .outer => 1
  | .inner => 2

theorem passes_groupEnd? (h : Ordinary cs)
    (hend : groupEnd? literals nesting false cs = some rest) :
    Passes (-nesting.depth) cs rest := by
  induction h generalizing nesting with
  | nil => simp [groupEnd?] at hend
  | @code c cs hquote hcs ih =>
    rcases groupEnd?_code_cases hquote hend with
      ⟨rfl, rfl, hnext⟩ | ⟨rfl, rfl, rfl⟩ | ⟨rfl, rfl, hnext⟩ | ⟨hc, hnext⟩
    · exact (passes_opening hcs).trans (ih hnext)
    · exact passes_closing hcs
    · exact (passes_closing hcs).trans (ih hnext)
    · rw [← Int.zero_add (-nesting.depth)]
      exact (passes_plain hcs hc).trans (ih hnext)
  | quoted hquote hcontent hplain hdouble hcs ih =>
    rw [← Int.zero_add (-nesting.depth)]
    exact (passes_quoted hquote hplain hcs).trans
      (ih (groupEnd?_quoted hquote hcontent hplain hdouble hend))

/-- What stands inside of a list where so many parentheses are open: all of them are closed but that
of the list. -/
structure IsInside (depth : Int) (cs : List Char) : Prop where
  opens : ∀ n, 1 ≤ depth + parens (cs.take n)
  closes : depth + parens cs = 1

theorem IsInside.of_append {depth : Int} {a : List Char} (h : IsInside depth (a ++ cs)) :
    IsInside (depth + parens a) cs where
  opens n := by
    have hn := h.opens (a.length + n)
    rwa [List.take_length_add_append, parens_append, ← Int.add_assoc] at hn
  closes := by rw [Int.add_assoc, ← parens_append, h.closes]

theorem eq_of_groupEnd? {own after : List Char} (h : Ordinary own)
    (hinside : IsInside nesting.depth own)
    (hend : groupEnd? literals nesting false (own ++ ')' :: after) = some rest) : rest = after := by
  induction h generalizing nesting with
  | nil =>
    cases nesting with
    | outer =>
      rw [List.nil_append, groupEnd?, if_neg (by simp), if_neg (by decide), if_pos rfl] at hend
      exact (Option.some.inj hend).symm
    | inner => exact absurd hinside.closes (by decide)
  | @code c cs hquote _ ih =>
    have hrest : IsInside (nesting.depth + parens [c]) cs := hinside.of_append
    rcases groupEnd?_code_cases hquote hend with
      ⟨rfl, rfl, hnext⟩ | ⟨rfl, rfl, -⟩ | ⟨rfl, rfl, hnext⟩ | ⟨hc, hnext⟩
    · have hinner : IsInside Nesting.inner.depth cs := hrest
      exact ih hinner hnext
    · have hfirst : (1 : Int) ≤ 1 + parens [')'] + 0 := hrest.opens 0
      exact absurd hfirst (by decide)
    · have houter : IsInside Nesting.outer.depth cs := hrest
      exact ih houter hnext
    · rw [parens_of_forall (List.forall_mem_singleton.2 hc), Int.add_zero] at hrest
      exact ih hrest hnext
  | @quoted c content cs hquote hcontent hplain hdouble _ ih =>
    have hnext : groupEnd? literals nesting false (cs ++ ')' :: after) = some rest :=
      groupEnd?_quoted hquote hcontent hplain hdouble (by simpa using hend)
    have htext : c :: (content ++ c :: cs) = (c :: (content ++ [c])) ++ cs := by simp
    rw [htext] at hinside
    have hrest := hinside.of_append
    rw [parens_of_quoted hquote hplain, Int.add_zero] at hrest
    exact ih hrest hnext

theorem exists_of_literal? {tail : List Char} (h : Ordinary cs) (hne : cs ≠ [])
    (hread : literal? (cs ++ tail) = some (value, rest)) :
    ∃ inner, cs = value ++ inner ∧ rest = inner ++ tail ∧ Ordinary inner ∧ parens value = 0 := by
  obtain ⟨hhead, htext⟩ := eq_append_of_literal? hread
  have hfirst : cs.head? = some '"' := by
    have heads := congrArg List.head? htext
    rwa [List.head?_append_of_ne_nil _ hne, List.head?_append, hhead] at heads
  cases h with
  | nil => exact absurd rfl hne
  | code hquote =>
    obtain rfl := Option.some.inj hfirst
    exact absurd isQuote_double hquote
  | @quoted _ content inner hquote hcontent hplain _ hinner =>
    obtain rfl := Option.some.inj hfirst
    have hsplit : '"' :: (content ++ '"' :: inner) ++ tail =
        '"' :: (content ++ '"' :: (inner ++ tail)) := by simp
    rw [hsplit, literal?] at hread
    obtain ⟨stop, hend, heq⟩ := Option.map_eq_some_iff.1 hread
    obtain ⟨-, rfl⟩ := Prod.mk.inj heq
    obtain rfl := literalEnd?_of_quotable hcontent hend
    have hvalue : value ++ (inner ++ tail) = '"' :: (content ++ ['"']) ++ (inner ++ tail) := by
      rw [← htext]
      simp
    obtain rfl := List.append_cancel_right hvalue
    exact ⟨inner, by simp, rfl, hinner, parens_of_quoted hquote hplain⟩

theorem passes_literal? (h : Ordinary cs) (hread : literal? cs = some (value, rest)) :
    Passes 0 cs rest := by
  have hne : cs ≠ [] := by
    rintro rfl
    simp [literal?] at hread
  rw [← List.append_nil cs] at hread
  obtain ⟨inner, rfl, rfl, hinner, hzero⟩ := exists_of_literal? h hne hread
  rw [List.append_nil]
  exact ⟨value, rfl, hinner, hzero⟩

end Literals

section Annotations
variable {cs rest : List Char}

theorem passes_argumentListEnd? (h : Ordinary cs) (hread : argumentListEnd? cs = some rest) :
    Passes 0 cs rest := by
  unfold argumentListEnd? at hread
  split at hread
  · rename_i inner hinner
    have hblanks := passes_skipBlanks h
    rw [hinner] at hblanks
    have hopening := passes_opening (hblanks.ordinary.tail (by simp [IsQuote]))
    exact (hblanks.trans hopening).trans (passes_groupEnd? hopening.ordinary hread)
  · simp at hread

theorem passes_annotationEnd? (h : Ordinary cs) (hread : annotationEnd? cs = some rest) :
    Passes 0 cs rest := by
  unfold annotationEnd? at hread
  split at hread
  · obtain ⟨⟨name, afterName⟩, hname, rfl⟩ := Option.map_eq_some_iff.1 hread
    have hsign := passes_plain (c := '@') (h.tail (by simp [IsQuote])) (by decide)
    have hword := hsign.trans (passes_takeWord1? hsign.ordinary hname)
    cases harguments : argumentListEnd? afterName with
    | none =>
      simp only [harguments, Option.getD_none]
      exact hword
    | some rest =>
      simp only [harguments, Option.getD_some]
      exact hword.trans (passes_argumentListEnd? hword.ordinary harguments)
  · simp at hread

theorem passes_annotationRun (h : Ordinary cs) : Passes 0 cs (annotationRun cs).2 := by
  unfold annotationRun
  fun_induction consecutive annotationAndBlanksEnd? annotationAndBlanksEnd?_advances cs with
  | case1 cs _ => exact .refl h
  | case2 cs rest hpiece starts stop hstop ih =>
    obtain ⟨more, hmore, rfl⟩ := Option.map_eq_some_iff.1 hpiece
    have hannotation := passes_annotationEnd? h hmore
    have hblanks := hannotation.trans (passes_skipBlanks hannotation.ordinary)
    have hrest := ih hblanks.ordinary
    rw [hstop] at hrest
    exact hblanks.trans hrest

/-- An entry closes all the parentheses that it opens. -/
theorem passes_entryText? {before : Option Char} {e : EntryText} (h : Ordinary cs)
    (hread : entryText? before cs = some (e, rest)) :
    Passes 0 cs e.nameAt ∧ Passes 0 e.nameAt rest := by
  obtain ⟨hnameAt, afterName, inside, more, hname, hinside, hvalue, hstop, -⟩ :=
    exists_of_entryText? hread
  have hrun := passes_annotationRun h
  rw [← hnameAt] at hrun
  have hword := passes_takeWord1? hrun.ordinary hname
  have hblanks := passes_skipBlanks hword.ordinary
  rw [hinside] at hblanks
  have hopening := passes_opening (hblanks.ordinary.tail (by simp [IsQuote]))
  have hliteral := passes_literal? (passes_skipBlanks hopening.ordinary).ordinary hvalue
  refine ⟨hrun, ?_⟩
  exact ((hword.trans hblanks).trans hopening).trans
    ((passes_skipBlanks hopening.ordinary).trans
      (hliteral.trans (passes_groupEnd? hliteral.ordinary hstop)))

end Annotations

/-! A search goes on character by character where nothing is read, and so it comes to places inside
of literals. An entry shows a parenthesis before any quote, so it is not read there. -/

section Openings
variable {c : Char} {a cs rest : List Char}

def OpensFirst (cs : List Char) : Prop := ∃ a rest, cs = a ++ '(' :: rest ∧ ∀ c ∈ a, ¬IsQuote c

theorem OpensFirst.append (h : OpensFirst rest) (ha : ∀ c ∈ a, ¬IsQuote c) :
    OpensFirst (a ++ rest) := by
  obtain ⟨b, rest, rfl, hb⟩ := h
  refine ⟨a ++ b, rest, by simp, List.forall_mem_append.2 ⟨ha, hb⟩⟩

theorem opensFirst_cons : OpensFirst (c :: cs) ↔ c = '(' ∨ ¬IsQuote c ∧ OpensFirst cs := by
  constructor
  · rintro ⟨a, rest, hcs, ha⟩
    cases a with
    | nil => exact .inl (List.cons.inj hcs).1
    | cons d a =>
      rw [List.cons_append, List.cons.injEq] at hcs
      obtain ⟨hd, ha⟩ := List.forall_mem_cons.1 ha
      exact .inr ⟨hcs.1 ▸ hd, a, rest, hcs.2, ha⟩
  · rintro (rfl | ⟨hc, h⟩)
    · exact ⟨[], cs, rfl, by simp⟩
    · exact h.append (a := [c]) (List.forall_mem_singleton.2 hc)

theorem not_opensFirst {quote : Char} {content : List Char} (hquote : IsQuote quote)
    (h : '(' ∉ content) : ¬OpensFirst (content ++ quote :: rest) := by
  induction content with
  | nil =>
    rw [List.nil_append, opensFirst_cons, not_or]
    refine ⟨?_, fun hrest => hrest.1 hquote⟩
    rintro rfl
    rcases hquote with hquote | hquote <;> simp at hquote
  | cons c content ih =>
    rw [List.mem_cons, not_or] at h
    rw [List.cons_append, opensFirst_cons, not_or]
    exact ⟨Ne.symm h.1, fun hrest => ih h.2 hrest.2⟩

theorem opensFirst_of_skipBlanks (h : OpensFirst (skipBlanks cs)) : OpensFirst cs := by
  obtain ⟨blanks, hblanks, hcs⟩ := exists_blanks cs
  rw [hcs]
  exact h.append fun c hc => (ne_of_isBlank (hblanks c hc)).1

theorem opensFirst_of_takeWord1? {w : List Char} (h : OpensFirst rest)
    (hw : takeWord1? cs = some (w, rest)) : OpensFirst cs := by
  obtain ⟨-, hword, rfl⟩ := eq_append_of_takeWord1? hw
  exact h.append fun c hc => (ne_of_isWord (hword c hc)).1

theorem opensFirst_of_annotationEnd? (h : OpensFirst rest)
    (hread : annotationEnd? cs = some rest) : OpensFirst cs := by
  unfold annotationEnd? at hread
  split at hread
  · obtain ⟨⟨name, afterName⟩, hname, rfl⟩ := Option.map_eq_some_iff.1 hread
    have hafter : OpensFirst afterName := by
      cases harguments : argumentListEnd? afterName with
      | none => simpa only [harguments, Option.getD_none] using h
      | some rest =>
        unfold argumentListEnd? at harguments
        split at harguments
        · rename_i inner hinner
          exact opensFirst_of_skipBlanks ⟨[], inner, hinner, by simp⟩
        · simp at harguments
    exact (opensFirst_of_takeWord1? hafter hname).append (a := ['@']) (by simp [IsQuote])
  · simp at hread

theorem opensFirst_of_annotationRun (h : OpensFirst (annotationRun cs).2) : OpensFirst cs := by
  unfold annotationRun at h
  fun_induction consecutive annotationAndBlanksEnd? annotationAndBlanksEnd?_advances cs with
  | case1 => exact h
  | case2 cs rest hpiece starts stop hstop ih =>
    obtain ⟨more, hmore, rfl⟩ := Option.map_eq_some_iff.1 hpiece
    rw [hstop] at ih
    exact opensFirst_of_annotationEnd? (opensFirst_of_skipBlanks (ih h)) hmore

theorem opensFirst_of_entryText? {before : Option Char} {e : EntryText}
    (hread : entryText? before cs = some (e, rest)) : OpensFirst cs := by
  obtain ⟨hnameAt, afterName, inside, -, hname, hinside, -⟩ := exists_of_entryText? hread
  refine opensFirst_of_annotationRun ?_
  rw [← hnameAt]
  exact opensFirst_of_takeWord1? (opensFirst_of_skipBlanks ⟨[], inside, hinside, by simp⟩) hname

/-- Ordinary text, or the end of one of its literals and what follows that. -/
def Within (cs : List Char) : Prop :=
  Ordinary cs ∨ ∃ content quote rest, cs = content ++ quote :: rest ∧ IsQuote quote ∧
    '(' ∉ content ∧ Ordinary rest

theorem Within.tail (h : Within (c :: cs)) : Within cs := by
  rcases h with h | ⟨content, quote, rest, hcs, hquote, hopen, hrest⟩
  · cases h with
    | code _ hcs => exact .inl hcs
    | @quoted _ content rest hquote _ hplain _ hrest =>
      exact .inr ⟨content, c, rest, rfl, hquote, fun hc => (hplain _ hc).1 rfl, hrest⟩
  · cases content with
    | nil =>
      obtain ⟨-, rfl⟩ := List.cons.inj hcs
      exact .inl hrest
    | cons d content =>
      rw [List.cons_append, List.cons.injEq] at hcs
      exact .inr ⟨content, quote, rest, hcs.2, hquote, fun hc => hopen (.tail d hc), hrest⟩

theorem Within.of_append (h : Within (a ++ rest)) : Within rest := by
  induction a with
  | nil => exact h
  | cons c a ih => exact ih h.tail

theorem Within.ordinary_of_opensFirst (h : Within cs) (hopens : OpensFirst cs) : Ordinary cs := by
  rcases h with h | ⟨content, quote, rest, rfl, hquote, hopen, -⟩
  · exact h
  · exact absurd hopens (not_opensFirst hquote hopen)

end Openings

end KotlinSchema.Source
