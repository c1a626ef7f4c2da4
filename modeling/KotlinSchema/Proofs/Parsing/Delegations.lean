import KotlinSchema.Proofs.FirstOccurrences
import KotlinSchema.Proofs.Parsing.Descriptors
import KotlinSchema.Proofs.Text.Words

/-! Which words make a property. The keyword and the name belong together, and so do the word for
the delegation and the name of the delegate: each pair as a whole is code or part of a literal, not
of a comment, and stands outside of nested blocks. What is written as the declared type between them
decides whether all four belong together. -/

namespace KotlinSchema
open Text Source

/-- How a delegation is spelled: the word for it, a gap, the name of the delegate, and after blanks
either a type argument or the call. -/
structure Source.Delegation.Spelled (d : Delegation) (callee after : List Char) : Prop where
  isDelegate : Delegate.ofName? callee = some d.delegate
  keyword : ∃ gap, IsGap gap ∧ d.keywordAt = "by".toList ++ (gap ++ d.calleeAt)
  callee : takeWord d.calleeAt = (callee, after)
  call : (d.typeArgumentAt, d.rest) =
    match skipBlanks after with
    | '<' :: rest => (some ('<' :: rest), rest)
    | rest => (none, rest)

/-- How a property is spelled: a keyword, a gap, the name, and up to its delegation nothing but
blanks if it has no declared type. -/
structure Source.PropertyText.Spelled (p : PropertyText) (keyword : List Char) : Prop where
  isKeyword : keyword = "val".toList ∨ keyword = "var".toList
  keyword : ∃ gap, IsGap gap ∧ p.keywordAt = keyword ++ (gap ++ p.nameAt)
  isName : p.name ≠ [] ∧ ∀ c ∈ p.name, isWord c = true
  name : ∃ link, p.nameAt = p.name ++ (link ++ p.delegation.keywordAt) ∧
    ∀ c ∈ link, isBlank c = true ∨ c = ':' ∨ ∃ type ∈ p.declared, c ∈ type

section Spelling
variable {cs rest type : List Char} {d : Delegation}

theorem Source.PropertyText.Spelled.isWord_keyword {p : PropertyText} {keyword : List Char}
    (h : p.Spelled keyword) : keyword ≠ [] ∧ ∀ c ∈ keyword, isWord c = true := by
  rcases h.isKeyword with rfl | rfl <;>
    exact ⟨List.cons_ne_nil _ _, List.all_eq_true.1 rfl⟩

theorem isWord_by : ∀ c ∈ "by".toList, isWord c = true := List.all_eq_true.1 rfl

theorem spelled_of_delegation? (h : delegation? cs = some d) :
    (∃ gap, IsGap gap ∧ cs = gap ++ d.keywordAt) ∧ ∃ callee after, d.Spelled callee after := by
  simp only [delegation?, Option.bind_eq_bind, Option.bind_eq_some_iff] at h
  obtain ⟨keywordAt, hblanks, calleeAt, hkeyword, delegate, hdelegate, h⟩ := h
  have hgap := exists_gap_of_skipBlanks1? hblanks
  have hby := exists_gap_of_keyword? hkeyword
  split at h
  · rename_i rest hrest
    obtain rfl := Option.some.inj h
    exact ⟨hgap, _, (takeWord calleeAt).2, hdelegate, hby, rfl, by simp only [hrest]⟩
  · rename_i hnot
    obtain rfl := Option.some.inj h
    refine ⟨hgap, _, (takeWord calleeAt).2, hdelegate, hby, rfl, ?_⟩
    split
    · exact absurd ‹_› (hnot _)
    · rfl

theorem exists_of_declaredType? (h : declaredType? cs = some (type, d)) :
    ∃ place, cs = type ++ place ∧ delegation? place = some d := by
  induction cs generalizing type with
  | nil => simp [declaredType?] at h
  | cons c cs ih =>
    rw [declaredType?] at h
    split at h
    · simp at h
    · cases hd : delegation? cs with
      | some d' =>
        simp only [hd, Option.some.injEq, Prod.mk.injEq] at h
        obtain ⟨rfl, rfl⟩ := h
        exact ⟨cs, rfl, hd⟩
      | none =>
        simp only [hd, Option.map_eq_some_iff, Prod.mk.injEq] at h
        obtain ⟨⟨type', d'⟩, htype, rfl, rfl⟩ := h
        obtain ⟨place, rfl, hplace⟩ := ih htype
        exact ⟨place, rfl, hplace⟩

theorem exists_of_typeAfterColon? (h : typeAfterColon? cs = some (type, d)) :
    ∃ blanks place, (∀ c ∈ blanks, isBlank c = true) ∧ cs = blanks ++ (type ++ place) ∧
      delegation? place = some d := by
  obtain ⟨k, hk, hread⟩ := List.exists_of_findSome?_eq_some h
  obtain ⟨place, hplace, hd⟩ := exists_of_declaredType? hread
  refine ⟨cs.take k, place, fun c hc => ?_, by rw [← hplace, List.take_append_drop], hd⟩
  obtain ⟨blanks, hblanks, hcs⟩ := exists_blanks cs
  have hlength : k ≤ blanks.length := by
    have hle := congrArg List.length hcs
    rw [List.length_append] at hle
    rw [List.mem_reverse, List.mem_range] at hk
    omega
  rw [hcs, List.take_append_of_le_length hlength] at hc
  exact hblanks c (List.mem_of_mem_take hc)

theorem spelled_of_propertyText? {before : Option Char} {p : PropertyText}
    (h : propertyText? before cs = some (p, rest)) :
    p.keywordAt <:+ cs ∧ (∃ keyword, p.Spelled keyword) ∧
      ∃ callee after, p.delegation.Spelled callee after := by
  simp only [propertyText?] at h
  split at h
  · simp only [Option.bind_eq_bind, Option.bind_eq_some_iff] at h
    obtain ⟨nameAt, hkeyword, ⟨name, afterName⟩, hname, h⟩ := h
    have hsuffix : (optionalKeyword ["override"] (annotationRun cs).2).2 <:+ cs :=
      (optionalKeyword_suffix _ _).trans (annotationRun_suffix cs)
    obtain ⟨hne, hword, hnameAt⟩ := eq_append_of_takeWord1? hname
    have hspelled : ∃ keyword, (keyword = "val".toList ∨ keyword = "var".toList) ∧ ∃ gap,
        IsGap gap ∧ (optionalKeyword ["override"] (annotationRun cs).2).2 =
          keyword ++ (gap ++ nameAt) := by
      rcases Option.or_eq_some_iff.1 hkeyword with hval | ⟨-, hvar⟩
      · exact ⟨_, .inl rfl, exists_gap_of_keyword? hval⟩
      · exact ⟨_, .inr rfl, exists_gap_of_keyword? hvar⟩
    obtain ⟨keyword, hkind, hgap⟩ := hspelled
    obtain ⟨blanks, hblanks, hafterName⟩ := exists_blanks afterName
    split at h
    · rename_i typeAt hcolon
      obtain ⟨⟨type, d⟩, htype, h⟩ := Option.bind_eq_some_iff.1 h
      obtain ⟨rfl, -⟩ := Prod.mk.inj (Option.some.inj h)
      obtain ⟨blanks', place, hblanks', rfl, hd⟩ := exists_of_typeAfterColon? htype
      obtain ⟨⟨gap, hgap', rfl⟩, hcallee⟩ := spelled_of_delegation? hd
      refine ⟨hsuffix, ⟨keyword, hkind, hgap, ⟨hne, hword⟩,
        blanks ++ (':' :: (blanks' ++ (type ++ gap))), ?_, ?_⟩, hcallee⟩
      · rw [hnameAt, hafterName, hcolon]
        simp
      · intro c hc
        simp only [List.mem_append, List.mem_cons] at hc
        rcases hc with hc | rfl | hc | hc | hc
        · exact .inl (hblanks c hc)
        · exact .inr (.inl rfl)
        · exact .inl (hblanks' c hc)
        · exact .inr (.inr ⟨type, rfl, hc⟩)
        · exact .inl (hgap'.2 c hc)
    · obtain ⟨d, hd, h⟩ := Option.bind_eq_some_iff.1 h
      obtain ⟨rfl, -⟩ := Prod.mk.inj (Option.some.inj h)
      obtain ⟨⟨gap, hgap', rfl⟩, hcallee⟩ := spelled_of_delegation? hd
      exact ⟨hsuffix, ⟨keyword, hkind, hgap, ⟨hne, hword⟩, gap, hnameAt,
        fun c hc => .inl (hgap'.2 c hc)⟩, hcallee⟩
  · simp at h

end Spelling

section Places
variable {body text before rest : List Char} {c : Char} {p : PropertyText}

theorem standsAt_unique {offset : Nat} {word : List Char} {r s : Region} (hne : word ≠ [])
    (h : StandsAt body offset word r) (h' : StandsAt body offset word s) : s = r := by
  obtain ⟨c, word, rfl⟩ := List.exists_cons_of_ne_nil hne
  have heq := (h 0 c rfl).1.symm.trans (h' 0 c rfl).1
  exact (Prod.mk.inj (Option.some.inj heq)).2.symm

theorem exists_isWord_head? {word : List Char} (hne : word ≠ [])
    (hword : ∀ c ∈ word, isWord c = true) (rest : List Char) :
    ∃ c ∈ (word ++ rest).head?, isWord c = true := by
  obtain ⟨c, word, rfl⟩ := List.exists_cons_of_ne_nil hne
  exact ⟨c, rfl, hword c List.mem_cons_self⟩

theorem standsAt_of_gap {place place' word gap word' : List Char} (h : memberText body = .ok text)
    (hplace : place <:+ text) (hne : word ≠ []) (hword : ∀ c ∈ word, isWord c = true)
    (hgap : IsGap gap) (hat : place = word ++ (gap ++ place'))
    (hword' : ∀ c ∈ word', isWord c = true) (hat' : place' = word' ++ rest) :
    ∃ r, r ≠ .comment ∧ StandsAt body (offsetOf text place) word r ∧
      StandsAt body (offsetOf text place') word' r := by
  obtain ⟨before, rfl⟩ := hplace
  have hinner : ∀ c ∈ word ++ (gap ++ word'), IsInner c := by
    simp only [List.forall_mem_append]
    exact ⟨fun c hc => isInner_of_isWord (hword c hc),
      fun c hc => isInner_of_isBlank (hgap.2 c hc), fun c hc => isInner_of_isWord (hword' c hc)⟩
  have htext : memberText body = .ok (before ++ ((word ++ (gap ++ word')) ++ rest)) := by
    simpa [hat, hat'] using h
  obtain ⟨r, hr, hwords, -⟩ := standsAt_of_stretch htext hinner
    (exists_isWord_head? hne hword _)
  refine ⟨r, hr, ?_, ?_⟩
  · rw [offsetOf_append]
    exact hwords [] word (gap ++ word') rfl (not_isBlanked_of_forall hword)
  · have hsplit : before ++ place = (before ++ (word ++ gap)) ++ place' := by simp [hat]
    rw [hsplit, offsetOf_append, List.length_append]
    exact hwords (word ++ gap) word' [] (by simp) (not_isBlanked_of_forall hword')

/-- A text without what can begin or end a literal, begin a block or end a declaration. -/
def IsPlain (type : List Char) : Prop := ∀ c ∈ type, IsInner c ∧ c ≠ ';'

theorem isPlain_of_isWord {word : List Char} (h : ∀ c ∈ word, isWord c = true) : IsPlain word := by
  refine fun c hc => ⟨isInner_of_isWord (h c hc), ?_⟩
  have hend : c ∉ [';'] := not_mem_of_class (h c hc) (by decide)
  simpa using hend

theorem isPlain_of_isBlank {gap : List Char} (h : ∀ c ∈ gap, isBlank c = true) : IsPlain gap := by
  refine fun c hc => ⟨isInner_of_isBlank (h c hc), ?_⟩
  have hend : c ∉ [';'] := not_mem_of_class (h c hc) (by decide)
  simpa using hend

theorem isPlain_append {a b : List Char} : IsPlain (a ++ b) ↔ IsPlain a ∧ IsPlain b :=
  List.forall_mem_append

/-- The words of a property stand in a body outside of nested blocks: the keyword and the name in
one region, the word for the delegation and the name of the delegate in one region. -/
structure Source.PropertyText.StandsIn (p : PropertyText) (body text keyword callee : List Char)
    (r s : Region) : Prop where
  isKeyword : keyword = "val".toList ∨ keyword = "var".toList
  isDelegate : Delegate.ofName? callee = some p.delegation.delegate
  keyword : StandsAt body (offsetOf text p.keywordAt) keyword r
  name : StandsAt body (offsetOf text p.nameAt) p.name r
  link : StandsAt body (offsetOf text p.delegation.keywordAt) "by".toList s
  callee : StandsAt body (offsetOf text p.delegation.calleeAt) callee s

/-- No semicolon of the code comes between the name of a property and that of its delegate. -/
def Source.PropertyText.IsUndivided (p : PropertyText) (body text : List Char) : Prop :=
  ∀ k, offsetOf text p.nameAt ≤ k → k < offsetOf text p.delegation.calleeAt →
    (marked body)[k]? ≠ some (';', .code)

section Spelled
variable {keyword callee after : List Char} {r s : Region}

theorem standsIn_of_spelled (h : memberText body = .ok text) (hplace : p.keywordAt <:+ text)
    (hp : p.Spelled keyword) (hd : p.delegation.Spelled callee after) :
    ∃ r s, p.StandsIn body text keyword callee r s ∧ r ≠ .comment ∧ s ≠ .comment := by
  obtain ⟨gap, hgap, hkeywordAt⟩ := hp.keyword
  obtain ⟨link, hnameAt, -⟩ := hp.name
  obtain ⟨gap', hgap', hbyAt⟩ := hd.keyword
  obtain ⟨hcallee, hcalleeAt⟩ := eq_append_of_takeWord hd.callee
  have hkeyword : keyword ≠ [] ∧ ∀ c ∈ keyword, isWord c = true := hp.isWord_keyword
  have hbyPlace : p.delegation.keywordAt <:+ text := by
    refine .trans ⟨keyword ++ (gap ++ (p.name ++ link)), ?_⟩ hplace
    simp [hkeywordAt, hnameAt]
  obtain ⟨r, hr, hatKeyword, hatName⟩ := standsAt_of_gap h hplace hkeyword.1 hkeyword.2 hgap
    hkeywordAt hp.isName.2 hnameAt
  obtain ⟨s, hs, hatBy, hatCallee⟩ := standsAt_of_gap h hbyPlace (List.cons_ne_nil _ _) isWord_by
    hgap' hbyAt hcallee hcalleeAt
  exact ⟨r, s, ⟨hp.isKeyword, hd.isDelegate, hatKeyword, hatName, hatBy, hatCallee⟩, hr, hs⟩

theorem isPlain_of_spelled (hp : p.Spelled keyword) (hd : p.delegation.Spelled callee after)
    (hplain : ∀ type ∈ p.declared, IsPlain type) :
    ∃ gap link gap', p.keywordAt = keyword ++ (gap ++ p.nameAt) ∧
      p.nameAt = p.name ++ (link ++ p.delegation.keywordAt) ∧
      p.delegation.keywordAt = "by".toList ++ (gap' ++ p.delegation.calleeAt) ∧
      IsPlain (keyword ++ (gap ++ (p.name ++ (link ++ ("by".toList ++ gap'))))) := by
  obtain ⟨gap, hgap, hkeywordAt⟩ := hp.keyword
  obtain ⟨link, hnameAt, hlink⟩ := hp.name
  obtain ⟨gap', hgap', hbyAt⟩ := hd.keyword
  have hlinkPlain : IsPlain link := by
    intro c hc
    rcases hlink c hc with hblank | rfl | ⟨type, htype, hc⟩
    · exact isPlain_of_isBlank (List.forall_mem_singleton.2 hblank) c List.mem_cons_self
    · exact ⟨⟨by simp [IsQuote], by decide⟩, by decide⟩
    · exact hplain type htype c hc
  refine ⟨gap, link, gap', hkeywordAt, hnameAt, hbyAt, ?_⟩
  simp only [isPlain_append]
  exact ⟨isPlain_of_isWord hp.isWord_keyword.2, isPlain_of_isBlank hgap.2,
    isPlain_of_isWord hp.isName.2, hlinkPlain, isPlain_of_isWord isWord_by,
    isPlain_of_isBlank hgap'.2⟩

theorem undivided_of_isPlain (h : memberText body = .ok text) (hplace : p.keywordAt <:+ text)
    (hp : p.Spelled keyword) (hd : p.delegation.Spelled callee after)
    (hstands : p.StandsIn body text keyword callee r s)
    (hplain : ∀ type ∈ p.declared, IsPlain type) : s = r ∧ p.IsUndivided body text := by
  obtain ⟨gap, link, gap', hkeywordAt, hnameAt, hbyAt, hall⟩ := isPlain_of_spelled hp hd hplain
  obtain ⟨before, rfl⟩ := hplace
  have hkeyword : keyword ≠ [] ∧ ∀ c ∈ keyword, isWord c = true := hp.isWord_keyword
  let head := keyword ++ gap
  let middle := keyword ++ (gap ++ (p.name ++ link))
  let all := keyword ++ (gap ++ (p.name ++ (link ++ ("by".toList ++ gap'))))
  have hatName : p.keywordAt = head ++ p.nameAt := by simp [head, hkeywordAt]
  have hatBy : p.keywordAt = middle ++ p.delegation.keywordAt := by
    simp [middle, hkeywordAt, hnameAt]
  have hatCallee : p.keywordAt = all ++ p.delegation.calleeAt := by
    simp [all, hkeywordAt, hnameAt, hbyAt]
  have hoffset {start place : List Char} (h : p.keywordAt = start ++ place) :
      offsetOf (before ++ p.keywordAt) place = (before ++ start).length := by
    rw [h, ← List.append_assoc, offsetOf_append]
  obtain ⟨r', -, hwords, hcode⟩ := standsAt_of_stretch (a := all) (hatCallee ▸ h)
    (fun c hc => (hall c hc).1) (exists_isWord_head? hkeyword.1 hkeyword.2 _)
  have hsame : r' = r := by
    refine standsAt_unique hkeyword.1 hstands.keyword ?_
    rw [offsetOf_append]
    exact hwords [] keyword _ rfl (not_isBlanked_of_forall hkeyword.2)
  have hsame' : r' = s := by
    refine standsAt_unique (List.cons_ne_nil _ _) hstands.link ?_
    rw [hoffset hatBy, List.length_append]
    exact hwords middle "by".toList gap' (by simp [all, middle])
      (not_isBlanked_of_forall isWord_by)
  refine ⟨hsame' ▸ hsame, fun k hlow hhigh => hcode ';' (fun hc => (hall _ hc).2 rfl) k ?_ ?_⟩
  · rw [hoffset hatName, List.length_append] at hlow
    omega
  · rwa [hoffset hatCallee, List.length_append] at hhigh

end Spelled

/-- The words that make a property are no comments. A plain declared type keeps them all together,
and in one declaration. -/
theorem standsIn_of_mem (h : memberText body = .ok text) (hp : p ∈ findAll propertyText? text) :
    ∃ keyword callee r s, p.StandsIn body text keyword callee r s ∧ r ≠ .comment ∧
      s ≠ .comment ∧
      ((∀ type ∈ p.declared, IsPlain type) → s = r ∧ p.IsUndivided body text) := by
  obtain ⟨_, place, _, hplace, hread⟩ := mem_findFrom hp
  obtain ⟨hsuffix, ⟨keyword, hspelled⟩, callee, after, hdelegation⟩ :=
    spelled_of_propertyText? hread
  have hkeywordAt : p.keywordAt <:+ text := hsuffix.trans hplace
  obtain ⟨r, s, hstands, hr, hs⟩ := standsIn_of_spelled h hkeywordAt hspelled hdelegation
  exact ⟨keyword, callee, r, s, hstands, hr, hs,
    undivided_of_isPlain h hkeywordAt hspelled hdelegation hstands⟩

theorem exists_of_parseProperties {qs : List Property} {q : Property}
    (h : parseProperties body = .ok qs) (hq : q ∈ qs) :
    ∃ text p, memberText body = .ok text ∧ p ∈ findAll propertyText? text ∧ q = propertyOf p := by
  cases htext : memberText body with
  | error fault =>
    rw [parseProperties, htext] at h
    exact absurd h (by simp [bind, Except.bind])
  | ok text =>
    rw [parseProperties_of_memberText htext] at h
    obtain rfl := Except.ok.inj h
    obtain ⟨p, hp, rfl⟩ := List.mem_map.1 (mem_of_mem_eraseDupsBy hq)
    exact ⟨text, p, rfl, hp, rfl⟩

/-- Each property of a body is read from words outside of nested blocks and of comments: the keyword
with the name, and the word for the delegation with the name of the delegate. If its declared type
is plain, then all of them belong together; so they are code if the keyword is, and no semicolon
divides them. -/
theorem parseProperties_words {qs : List Property} {q : Property}
    (h : parseProperties body = .ok qs) (hq : q ∈ qs) :
    ∃ text p keyword callee r s, memberText body = .ok text ∧ p ∈ findAll propertyText? text ∧
      q = propertyOf p ∧ p.StandsIn body text keyword callee r s ∧ r ≠ .comment ∧ s ≠ .comment ∧
      ((∀ type ∈ p.declared, IsPlain type) → s = r ∧ p.IsUndivided body text) := by
  obtain ⟨text, p, htext, hp, hq⟩ := exists_of_parseProperties h hq
  obtain ⟨keyword, callee, r, s, hwords⟩ := standsIn_of_mem htext hp
  exact ⟨text, p, keyword, callee, r, s, htext, hp, hq, hwords⟩

def delegatedBody : List Char := "\n  val a: Int by value(1) // one\n".toList

theorem parseProperties_words_delegatedBody :
    ∃ q, parseProperties delegatedBody = .ok [q] ∧ ∃ text p keyword callee r s,
      q = propertyOf p ∧ p.StandsIn delegatedBody text keyword callee r s ∧ r ≠ .comment := by
  have hparse : parseProperties delegatedBody = .ok
      [{ name := "a", typeName := "Int", defaultText := some "1" }] := by decide +kernel
  obtain ⟨text, p, keyword, callee, r, s, -, -, hq, hwords, hr, -, -⟩ :=
    parseProperties_words hparse List.mem_cons_self
  exact ⟨_, hparse, text, p, keyword, callee, r, s, hq, hwords, hr⟩

def literalBody : List Char := "\n    val s = \"val x by value()\"\n".toList

/-- A property is read from a literal: none of its words is code. -/
theorem parseProperties_literalBody :
    ∃ q, parseProperties literalBody = .ok [q] ∧ ∀ text p keyword callee s,
      memberText literalBody = .ok text → p ∈ findAll propertyText? text →
        ¬p.StandsIn literalBody text keyword callee .code s := by
  have hparse : parseProperties literalBody = .ok [{ name := "x", typeName := "String" }] := by
    decide +kernel
  have htext : memberText literalBody = .ok literalBody := by decide +kernel
  have hoffsets : (findAll propertyText? literalBody).map
      (fun p => offsetOf literalBody p.keywordAt) = [14] := by decide +kernel
  have hmarked : (marked literalBody)[14]? = some ('v', .literal) := by decide +kernel
  refine ⟨_, hparse, fun text p keyword callee s hmember hp hstands => ?_⟩
  obtain rfl : text = literalBody := Except.ok.inj (hmember.symm.trans htext)
  have hoffset : offsetOf literalBody p.keywordAt = 14 := by
    have hmem := List.mem_map_of_mem (f := fun p => offsetOf literalBody p.keywordAt) hp
    rw [hoffsets] at hmem
    exact List.mem_singleton.1 hmem
  have hkeyword := hstands.keyword
  rw [hoffset] at hkeyword
  have hfirst : keyword[0]? = some 'v' := by
    rcases hstands.isKeyword with rfl | rfl <;> rfl
  have hcode := (hkeyword 0 'v' hfirst).1
  rw [Nat.add_zero, hmarked] at hcode
  simp at hcode

end Places

end KotlinSchema
