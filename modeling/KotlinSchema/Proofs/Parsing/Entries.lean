import KotlinSchema.Proofs.Parsing.Attribution
import KotlinSchema.Proofs.Parsing.Delegations
import KotlinSchema.Proofs.Parsing.Sections
import KotlinSchema.Proofs.Source.Passing
import KotlinSchema.Proofs.Text.Finding
import Mathlib.Algebra.Ring.Int.Defs

/-! Where the names of entries stand. They stand outside of nested blocks and of comments, before
the semicolon that ends the entries. Where literals are ordinary they are code, and as many
parentheses are open there as the text leaves open that is passed over between the entries. -/

namespace KotlinSchema
open Text Source

section Sections
variable {body text : List Char} {n : Nat} {m : Marked}

theorem mem_marked_entrySection (h : memberText body = .ok text)
    (hn : n < (entrySection text).length) (hm : (marked body)[n]? = some m)
    (hopen : openBlocks 0 ((marked body).take n) = 0) :
    remark true m ∈ marked (entrySection text) := by
  refine List.mem_of_getElem? (i := n) ?_
  rw [marked_entrySection, List.getElem?_take_of_lt hn, getElem?_marked_memberText h hopen, hm]
  rfl

end Sections

section Parentheses
variable {cs : List Char} {ts : List Token} {ms : List Marked}

theorem region_of_paren (h : Tokens ts cs) (hts : ∀ t ∈ ts, t.IsOrdinary) {m : Marked}
    (hm : m ∈ marked cs) (hparen : m.1 = '(' ∨ m.1 = ')') : m.2 = .code := by
  rw [marked_tokens h] at hm
  obtain ⟨t, ht, hm⟩ := List.mem_flatMap.1 hm
  obtain ⟨c, hc, rfl⟩ := List.mem_map.1 hm
  have hordinary := hts t ht
  cases t with
  | code => rfl
  | quoted quote content hquote _ =>
    have hne : quote ≠ '(' ∧ quote ≠ ')' := by rcases hquote with rfl | rfl <;> decide
    have hcontent := hordinary.1
    simp only [Token.chars, List.mem_append, List.mem_singleton] at hc
    grind
  | _ => exact hordinary.elim

theorem balance_eq_parens (h : ∀ m ∈ ms, m.1 = '(' ∨ m.1 = ')' → m.2 = .code) :
    balance '(' ')' ms = parens (ms.map Prod.fst) := by
  have hcount {c : Char} (hc : c = '(' ∨ c = ')') :
      (ms.map Prod.fst).count c = ms.count (c, .code) := by
    rw [List.count, List.count, List.countP_map]
    refine List.countP_congr fun m hm => ?_
    have hm := h m hm
    rw [Function.comp_apply, beq_iff_eq, beq_iff_eq, Prod.ext_iff]
    grind
  rw [balance_eq_count (by decide), parens, hcount (.inl rfl), hcount (.inr rfl)]

theorem balance_take_tokens (h : Tokens ts cs) (hts : ∀ t ∈ ts, t.IsOrdinary) (n : Nat) :
    balance '(' ')' ((marked cs).take n) = parens (cs.take n) := by
  rw [balance_eq_parens fun m hm => region_of_paren h hts (List.mem_of_mem_take hm),
    List.map_take, marked, map_fst_mark]

end Parentheses

section Search
variable {before : Option Char} {text : List Char} {ms : List (Found EntryText)}

theorem parens_of_finds (h : Finds entryText? before text ms) (hwithin : Within text)
    {earlier later : List (Found EntryText)} {m : Found EntryText}
    (hms : ms = earlier ++ m :: later) :
    ∃ a, text = a ++ m.item.nameAt ∧
      parens a = ((earlier ++ [m]).map fun m => parens m.gap).sum := by
  induction h generalizing earlier with
  | nil => simp at hms
  | @cons _ first ms rest _ _ hread _ ih =>
    have hplace : Ordinary (first.chars ++ rest) :=
      hwithin.of_append.ordinary_of_opensFirst (opensFirst_of_entryText? hread)
    obtain ⟨hname, hrest⟩ := passes_entryText? hplace hread
    cases earlier with
    | nil =>
      obtain ⟨rfl, rfl⟩ := List.cons.inj hms
      obtain ⟨a, ha, -, hzero⟩ := hname
      refine ⟨first.gap ++ a, by rw [ha, List.append_assoc], ?_⟩
      simp [parens_append, hzero]
    | cons m' earlier =>
      rw [List.cons_append, List.cons.injEq] at hms
      obtain ⟨rfl, hms⟩ := hms
      obtain ⟨chars, hchars, -, hzero⟩ := hname.trans hrest
      obtain rfl := List.append_cancel_right hchars
      obtain ⟨a, rfl, ha⟩ := ih (.inl hrest.ordinary) hms
      refine ⟨first.gap ++ (first.chars ++ a), by simp, ?_⟩
      rw [parens_append, parens_append, hzero, ha, List.cons_append, List.map_cons, List.sum_cons]
      simp

end Search

/-- The name of an entry stands in a body, not in a comment and outside of nested blocks, and before
each semicolon in code outside of nested blocks. -/
structure Source.EntryText.StandsIn (e : EntryText) (body : List Char) (k : Nat) (r : Region) :
    Prop where
  name : StandsAt body k e.name r
  isShown : r ≠ .comment
  isBefore : ∀ j, (marked body)[j]? = some (';', .code) →
    openBlocks 0 ((marked body).take j) = 0 → k + e.name.length ≤ j

section Names
variable {body text place rest word blanks after : List Char} {before : Option Char}
  {e : EntryText} {r : Region}

theorem exists_stretch_of_entryText? (hplace : place <:+ text)
    (hread : entryText? before place = some (e, rest)) :
    ∃ start blanks after, text = start ++ ((e.name ++ (blanks ++ ['('])) ++ after) ∧
      offsetOf text e.nameAt = start.length ∧ (e.name ≠ [] ∧ ∀ c ∈ e.name, isWord c = true) ∧
      ∀ c ∈ e.name ++ (blanks ++ ['(']), IsInner c := by
  obtain ⟨-, afterName, inside, -, hname, hinside, -⟩ := exists_of_entryText? hread
  obtain ⟨hne, hword, hspelled⟩ := eq_append_of_takeWord1? hname
  obtain ⟨blanks, hblanks, hafter⟩ := exists_blanks afterName
  obtain ⟨start, rfl⟩ := (nameAt_of_entryText? hread).1.trans hplace
  refine ⟨start, blanks, inside, ?_, offsetOf_append .., ⟨hne, hword⟩, ?_⟩
  · rw [hspelled, hafter, hinside]
    simp
  · simp only [List.forall_mem_append]
    exact ⟨fun c hc => isInner_of_isWord (hword c hc),
      fun c hc => isInner_of_isBlank (hblanks c hc), by simp [IsInner, IsQuote]⟩

theorem exists_paren_of_standsAt {start : List Char}
    (h : memberText body = .ok (start ++ ((word ++ (blanks ++ ['('])) ++ after)))
    (hinner : ∀ c ∈ word ++ (blanks ++ ['(']), IsInner c) (hne : word ≠ [])
    (hstands : StandsAt body start.length word r) (hr : r ≠ .comment) :
    ∃ r', (marked body)[start.length + (word.length + blanks.length)]? = some ('(', r') ∧
      openBlocks 0 ((marked body).take (start.length + (word.length + blanks.length))) = 0 ∧
      (r' ≠ .literal → r = .code) := by
  have hparenAt : (word ++ (blanks ++ ['(']))[word.length + blanks.length]? = some '(' := by simp
  obtain ⟨r', -, hparen, hopen⟩ := marked_of_memberText h (getElem?_between hparenAt)
    (by simp [IsBlanked])
  obtain ⟨c, word, rfl⟩ := List.exists_cons_of_ne_nil hne
  have hfirst := hstands 0 c rfl
  have hiff := literal_iff_of_stretch h hinner hfirst.2 (n := 0) rfl hparenAt hfirst.1 hparen
  refine ⟨r', hparen, hopen, fun hcode => ?_⟩
  cases r with
  | code => rfl
  | comment => exact absurd rfl hr
  | literal => exact absurd (hiff.1 rfl) hcode

theorem standsIn_of_entryText? (h : memberText body = .ok text)
    (hplace : place <:+ entrySection text) (hread : entryText? before place = some (e, rest)) :
    ∃ r, e.StandsIn body (offsetOf (entrySection text) e.nameAt) r ∧
      (('(', .literal) ∉ marked (entrySection text) → r = .code) := by
  obtain ⟨start, blanks, inside, hsection, hoffset, ⟨hne, hword⟩, hinner⟩ :=
    exists_stretch_of_entryText? hplace hread
  obtain ⟨after, hafter⟩ := isPrefix_entrySection text
  have hbody : memberText body =
      .ok (start ++ ((e.name ++ (blanks ++ ['('])) ++ (inside ++ after))) := by
    rw [h, ← hafter, hsection]
    simp
  obtain ⟨r, hr, hwords, -⟩ := standsAt_of_stretch hbody hinner (exists_isWord_head? hne hword _)
  have hstands : StandsAt body start.length e.name r :=
    hwords [] e.name (blanks ++ ['(']) rfl (not_isBlanked_of_forall hword)
  obtain ⟨r', hparen, hopen, hcode⟩ := exists_paren_of_standsAt hbody hinner hne hstands hr
  have hlength := congrArg List.length hsection
  simp only [List.length_append, List.length_singleton] at hlength
  rw [hoffset]
  refine ⟨r, ⟨hstands, hr, fun j hj hopen => ?_⟩, fun hnone => hcode ?_⟩
  · have hend : (entrySection text).length ≤ j := by
      refine length_entrySection_le ?_
      rw [getElem?_marked_memberText h hopen, hj]
      rfl
    omega
  · have hmem := mem_marked_entrySection h (by omega) hparen hopen
    rintro rfl
    exact hnone hmem

theorem exists_of_parseEntries {es : List EnumEntry} (h : parseEntries body = .ok es) :
    ∃ text ms, memberText body = .ok text ∧ Finds entryText? none (entrySection text) ms ∧
      es = ms.map (entryOf ·.item) := by
  cases htext : memberText body with
  | error fault =>
    rw [parseEntries, htext] at h
    exact absurd h (by simp [bind, Except.bind])
  | ok text =>
    rw [parseEntries_of_memberText htext] at h
    obtain rfl := Except.ok.inj h
    obtain ⟨ms, hms⟩ := exists_finds (fun _ _ _ _ => exists_chars_of_entryText?) none
      (entrySection text)
    refine ⟨text, ms, rfl, hms, ?_⟩
    rw [findAll, hms.findFrom_eq, List.map_map]
    rfl

/-- Where literals are ordinary, as many parentheses are open at the name of an entry as the text
leaves open that is passed over between the entries. -/
theorem parenDepth_of_finds (h : memberText body = .ok text) {ts : List Token}
    (htokens : Tokens ts (entrySection text)) (hts : ∀ t ∈ ts, t.IsOrdinary)
    {earlier later : List (Found EntryText)} {m : Found EntryText}
    (hms : Finds entryText? none (entrySection text) (earlier ++ m :: later)) :
    parenDepth body (offsetOf (entrySection text) m.item.nameAt) =
      ((earlier ++ [m]).map fun m => parens m.gap).sum := by
  obtain ⟨a, ha, hparens⟩ := parens_of_finds hms (.inl (ordinary_of_tokens htokens hts)) rfl
  have hoffset : offsetOf (entrySection text) m.item.nameAt = a.length := by
    rw [ha, offsetOf_append]
  have hlength : a.length ≤ (entrySection text).length := by
    rw [ha, List.length_append]
    exact Nat.le_add_right _ _
  have hmarked : (marked text).take a.length = (marked (entrySection text)).take a.length := by
    rw [marked_entrySection, List.take_take, Nat.min_eq_left hlength]
  calc parenDepth body (offsetOf (entrySection text) m.item.nameAt)
    _ = balance '(' ')' ((marked (entrySection text)).take a.length) := by
      rw [hoffset, parenDepth_eq h, hmarked]
    _ = parens ((entrySection text).take a.length) := balance_take_tokens htokens hts _
    _ = parens a := by rw [ha, List.take_left]
    _ = _ := hparens

/-- The name of each entry that is read stands outside of nested blocks and of comments, before the
semicolon that ends the entries. It is code if no parenthesis opens in a literal. Where literals are
ordinary, as many parentheses are open there as the text leaves open that is passed over between the
entries; so none is if that text has its parentheses in pairs. -/
theorem parseEntries_names {es : List EnumEntry} (h : parseEntries body = .ok es) :
    ∃ text ms, memberText body = .ok text ∧ Finds entryText? none (entrySection text) ms ∧
      es = ms.map (entryOf ·.item) ∧ ∀ earlier m later, ms = earlier ++ m :: later →
        ∃ r, m.item.StandsIn body (offsetOf (entrySection text) m.item.nameAt) r ∧
          (('(', .literal) ∉ marked (entrySection text) → r = .code) ∧
          ∀ ts, Tokens ts (entrySection text) → (∀ t ∈ ts, t.IsOrdinary) →
            parenDepth body (offsetOf (entrySection text) m.item.nameAt) =
              ((earlier ++ [m]).map fun m => parens m.gap).sum := by
  obtain ⟨text, ms, htext, hms, hes⟩ := exists_of_parseEntries h
  refine ⟨text, ms, htext, hms, hes, ?_⟩
  rintro earlier m later rfl
  have hmem : m.item ∈ findAll entryText? (entrySection text) := by
    rw [findAll, hms.findFrom_eq]
    exact List.mem_map_of_mem (by simp)
  obtain ⟨_, place, _, hplace, hread⟩ := mem_findFrom hmem
  obtain ⟨r, hstands, hcode⟩ := standsIn_of_entryText? htext hplace hread
  exact ⟨r, hstands, hcode, fun ts htokens hts => parenDepth_of_finds htext htokens hts hms⟩

def twoEntriesBody : List Char := "A(\"a\"), B(\"b\"); fun f() = g(\"x\")".toList

theorem parseEntries_names_twoEntriesBody :
    parseEntries twoEntriesBody =
      .ok [{ name := "A", schemaValue := "a" }, { name := "B", schemaValue := "b" }] ∧
    ∃ text m m', Finds entryText? none (entrySection text) [m, m'] ∧
      m'.item.StandsIn twoEntriesBody (offsetOf (entrySection text) m'.item.nameAt) .code ∧
      parenDepth twoEntriesBody (offsetOf (entrySection text) m'.item.nameAt) =
        parens m.gap + parens m'.gap := by
  have hparse : parseEntries twoEntriesBody =
      .ok [{ name := "A", schemaValue := "a" }, { name := "B", schemaValue := "b" }] := by
    decide +kernel
  have htext : memberText twoEntriesBody = .ok twoEntriesBody := by decide +kernel
  let tokens : List Token :=
    [.code 'A' (by simp [IsQuote]), .code '(' (by simp [IsQuote]),
      .quoted '"' ['a'] isQuote_double (.plain (by decide) (by decide) .nil),
      .code ')' (by simp [IsQuote]), .code ',' (by simp [IsQuote]), .code ' ' (by simp [IsQuote]),
      .code 'B' (by simp [IsQuote]), .code '(' (by simp [IsQuote]),
      .quoted '"' ['b'] isQuote_double (.plain (by decide) (by decide) .nil),
      .code ')' (by simp [IsQuote])]
  have hsection : entrySection twoEntriesBody = tokens.flatMap Token.chars := by decide +kernel
  have htokens : Tokens tokens (entrySection twoEntriesBody) := by
    rw [hsection]
    repeat' first
      | exact .nil
      | refine .cons (by simp [Token.EndsBefore, Token.chars]) ?_
  have hordinary : ∀ t ∈ tokens, t.IsOrdinary := by simp [tokens, Token.IsOrdinary]
  obtain ⟨text, ms, hmember, hms, hes, hnames⟩ := parseEntries_names hparse
  obtain rfl : text = twoEntriesBody := Except.ok.inj (hmember.symm.trans htext)
  obtain ⟨m, ms, rfl, -, hrest⟩ := List.map_eq_cons_iff.1 hes.symm
  obtain ⟨m', ms, rfl, -, hnil⟩ := List.map_eq_cons_iff.1 hrest
  obtain rfl := List.map_eq_nil_iff.1 hnil
  obtain ⟨r, hstands, hcode, hdepth⟩ := hnames [m] m' [] rfl
  obtain rfl : r = .code := hcode (by rw [hsection]; decide +kernel)
  refine ⟨hparse, twoEntriesBody, m, m', hms, hstands, ?_⟩
  rw [hdepth _ htokens hordinary]
  simp

def nestedBody : List Char := "A(of(\"x\"))".toList

/-- The call is read as an entry, though a parenthesis is open there. -/
theorem parseEntries_nestedBody :
    balance '{' '}' (marked nestedBody) = 0 ∧ balance '(' ')' (marked nestedBody) = 0 ∧
    parseEntries nestedBody = .ok [{ name := "of", schemaValue := "x" }] ∧
    ∀ text e, memberText nestedBody = .ok text → e ∈ findAll entryText? (entrySection text) →
      parenDepth nestedBody (offsetOf (entrySection text) e.nameAt) = 1 := by
  have htext : memberText nestedBody = .ok nestedBody := by decide +kernel
  have hdepths : (findAll entryText? (entrySection nestedBody)).map
      (fun e => parenDepth nestedBody (offsetOf (entrySection nestedBody) e.nameAt)) = [1] := by
    decide +kernel
  refine ⟨by decide +kernel, by decide +kernel, by decide +kernel, fun text e hmember he => ?_⟩
  obtain rfl : text = nestedBody := Except.ok.inj (hmember.symm.trans htext)
  have hmem := List.mem_map_of_mem
    (f := fun e => parenDepth nestedBody (offsetOf (entrySection nestedBody) e.nameAt)) he
  rw [hdepths] at hmem
  exact List.mem_singleton.1 hmem

end Names

end KotlinSchema
