import KotlinSchema.Proofs.Parsing.Faults
import KotlinSchema.Proofs.Source.Blanking

/-! The entries of a body end at the first semicolon of its code outside of nested blocks. What
follows that semicolon decides nothing but whether its own blocks are closed. -/

namespace KotlinSchema
open Text Source

section Marks
variable {text : List Char} {n : Nat} {ms ns : List Marked}

theorem entrySection_of_marked (h : marked text = ms ++ ns) (hms : ∀ m ∈ ms, m ≠ (';', .code))
    (hns : ∀ m ∈ ns.head?, m = (';', .code)) : entrySection text = ms.map Prod.fst := by
  have hall : ∀ m ∈ ms, (!(m.1 == ';' && m.2 == .code)) = true := by
    intro m hm
    by_contra hc
    exact hms m hm (by simpa [Prod.ext_iff] using hc)
  have hend : ns.takeWhile (fun m => !(m.1 == ';' && m.2 == .code)) = [] := by
    cases ns with
    | nil => rfl
    | cons m ns =>
      obtain rfl := hns m rfl
      rfl
  rw [entrySection, h, List.takeWhile_append_of_pos hall, hend, List.append_nil]

theorem entrySection_eq_self (h : ∀ m ∈ marked text, m ≠ (';', .code)) :
    entrySection text = text := by
  rw [entrySection_of_marked (List.append_nil _).symm h (by simp), marked, map_fst_mark]

theorem marked_entrySection (text : List Char) :
    marked (entrySection text) = (marked text).take (entrySection text).length := by
  let p : Marked → Bool := fun m => !(m.1 == ';' && m.2 == .code)
  have hsplit : (marked text).takeWhile p ++ (marked text).dropWhile p = marked text :=
    List.takeWhile_append_dropWhile
  have htext : entrySection text ++ ((marked text).dropWhile p).map Prod.fst = text := by
    rw [entrySection, ← List.map_append, hsplit, marked, map_fst_mark]
  cases hrest : (marked text).dropWhile p with
  | nil =>
    rw [hrest, List.map_nil, List.append_nil] at htext
    rw [htext, List.take_of_length_le (length_marked text).le]
  | cons m rest =>
    have hm : m.1 = ';' := by
      have hstops := List.head?_dropWhile_not p (marked text)
      rw [hrest] at hstops
      simp only [List.head?_cons, p] at hstops
      grind
    rw [hrest, List.map_cons, hm] at htext
    conv_rhs => rw [← htext]
    rw [marked, marked, mark_append (by decide) (by decide) (by decide), htext,
      List.take_left' (length_mark ..)]

theorem length_entrySection_le (h : (marked text)[n]? = some (';', .code)) :
    (entrySection text).length ≤ n := by
  by_contra hlt
  rw [Nat.not_le, entrySection, List.length_map] at hlt
  rw [← List.takeWhile_append_dropWhile (l := marked text), List.getElem?_append_left hlt] at h
  have hkept := List.mem_takeWhile_imp (List.mem_of_getElem? h)
  simp at hkept

end Marks

/-- A text of whole entries: it is read to code, its braces are in pairs, and the semicolons of its
code stand in nested blocks. -/
structure Source.HoldsEntries (text : List Char) : Prop where
  isCode : modeAt .code text text.length = .code
  opens : ∀ n, 0 ≤ balance '{' '}' ((marked text).take n)
  closes : balance '{' '}' (marked text) = 0
  isNested : ∀ n, (marked text)[n]? = some (';', .code) →
    0 < balance '{' '}' ((marked text).take n)

section Entries
variable {a b text : List Char}

theorem Source.HoldsEntries.openBlocks_take (h : HoldsEntries a) (n : Nat) :
    (openBlocks 0 ((marked a).take n) : Int) = balance '{' '}' ((marked a).take n) := by
  have hopens : ∀ k, 0 ≤ ((0 : Nat) : Int) + balance '{' '}' (((marked a).take n).take k) := by
    intro k
    rw [List.take_take, Int.natCast_zero, Int.zero_add]
    exact h.opens _
  have hbalance := openBlocks_eq_balance hopens
  rwa [Int.natCast_zero, Int.zero_add] at hbalance

theorem Source.HoldsEntries.openBlocks_eq (h : HoldsEntries a) : openBlocks 0 (marked a) = 0 := by
  have hall := h.openBlocks_take (marked a).length
  rw [List.take_length, h.closes] at hall
  exact_mod_cast hall

theorem Source.HoldsEntries.marked_append (h : HoldsEntries a) (b : List Char) :
    marked (a ++ ';' :: b) = marked a ++ (';', .code) :: marked b :=
  marked_append_cons (by decide) (by decide) (by simp [IsQuote]) h.isCode b

theorem Source.HoldsEntries.ne_semicolon (h : HoldsEntries a) :
    ∀ m ∈ veiled 0 ((marked a).map (remark true)), m ≠ (';', .code) := by
  rintro m hm rfl
  obtain ⟨n, hn⟩ := List.getElem?_of_mem hm
  obtain ⟨hmarked, hopen⟩ := getElem?_of_veiled (by decide) hn
  rw [List.getElem?_map, Option.map_eq_some_iff] at hmarked
  obtain ⟨m, hm, hremark⟩ := hmarked
  obtain rfl := (remark_eq_code_iff (by decide) (by decide) m).1 hremark
  rw [← List.map_take, openBlocks_remark] at hopen
  have hnested := h.isNested n hm
  rw [← h.openBlocks_take, hopen] at hnested
  exact absurd hnested (by decide)

theorem Source.HoldsEntries.entrySection_eq (h : HoldsEntries a) (htext : memberText a = .ok text) :
    entrySection text = text := by
  refine entrySection_eq_self fun m hm => ?_
  rw [marked_memberText htext] at hm
  exact h.ne_semicolon m hm

theorem Source.HoldsEntries.entrySection_append (h : HoldsEntries a) {text' : List Char}
    (htext : memberText a = .ok text) (htext' : memberText (a ++ ';' :: b) = .ok text') :
    entrySection text' = text := by
  have hblocks : openBlocks 0 ((marked a).map (remark true)) = 0 := by
    rw [openBlocks_remark, h.openBlocks_eq]
  have hmarked : marked text' = marked text ++
      (';', .code) :: veiled 0 ((marked b).map (remark true)) := by
    rw [marked_memberText htext', marked_memberText htext, h.marked_append, List.map_append,
      veiled_append, hblocks]
    rfl
  have hnone : ∀ m ∈ marked text, m ≠ (';', .code) := by
    rw [marked_memberText htext]
    exact h.ne_semicolon
  rw [entrySection_of_marked hmarked hnone (by simp), marked, map_fst_mark]

theorem exists_parseEntries_iff (body : List Char) :
    (∃ es, parseEntries body = .ok es) ↔ openBlocks 0 (marked body) = 0 := by
  rw [← exists_memberText_iff, parseEntries]
  cases memberText body <;> simp [bind, Except.bind, pure, Except.pure]

theorem Source.HoldsEntries.parseEntries_eq (h : HoldsEntries a) {text' : List Char}
    (htext' : memberText (a ++ ';' :: b) = .ok text') :
    parseEntries (a ++ ';' :: b) = parseEntries a := by
  obtain ⟨text, htext⟩ := (exists_memberText_iff a).2 h.openBlocks_eq
  rw [parseEntries_of_memberText htext, parseEntries_of_memberText htext',
    h.entrySection_eq htext, h.entrySection_append htext htext']

/-- What follows the first semicolon of a body, outside of nested blocks, has no part in its entries;
reading them fails only where reading what follows does. -/
theorem parseEntries_append (h : HoldsEntries a) :
    (∃ es, parseEntries a = .ok es) ∧ ∀ b es, parseEntries (a ++ ';' :: b) = .ok es ↔
      parseEntries a = .ok es ∧ ∃ later, parseEntries b = .ok later := by
  refine ⟨(exists_parseEntries_iff a).2 h.openBlocks_eq, fun b es => ?_⟩
  have hblocks : openBlocks 0 (marked (a ++ ';' :: b)) = openBlocks 0 (marked b) := by
    rw [h.marked_append, openBlocks_append, h.openBlocks_eq]
    rfl
  have hreads : (∃ es, parseEntries (a ++ ';' :: b) = .ok es) ↔
      ∃ later, parseEntries b = .ok later := by
    rw [exists_parseEntries_iff, exists_parseEntries_iff, hblocks]
  have hsame (hok : ∃ es, parseEntries (a ++ ';' :: b) = .ok es) :
      parseEntries (a ++ ';' :: b) = parseEntries a := by
    rw [exists_parseEntries_iff, ← exists_memberText_iff] at hok
    obtain ⟨text', htext'⟩ := hok
    exact h.parseEntries_eq htext'
  constructor
  · intro hes
    exact ⟨hsame ⟨es, hes⟩ ▸ hes, hreads.1 ⟨es, hes⟩⟩
  · rintro ⟨hes, hlater⟩
    rw [hsame (hreads.2 hlater), hes]

def partedBody : List Char := "A(\"a;\") \x7b f(); \x7d, /* ; */ B('b')".toList

theorem holdsEntries_partedBody : HoldsEntries partedBody := by
  have hlength : (marked partedBody).length = 32 := by decide +kernel
  have hcloses : balance '{' '}' (marked partedBody) = 0 := by decide +kernel
  have hopens : ∀ n < 32, 0 ≤ balance '{' '}' ((marked partedBody).take n) := by decide +kernel
  have hnested : ∀ n < 32, (marked partedBody)[n]? = some (';', .code) →
      0 < balance '{' '}' ((marked partedBody).take n) := by decide +kernel
  refine ⟨by decide +kernel, fun n => ?_, hcloses, fun n hn => ?_⟩
  · rcases Nat.lt_or_ge n 32 with hlt | hge
    · exact hopens n hlt
    · exact Int.le_of_eq (by rw [List.take_of_length_le (hlength.trans_le hge), hcloses])
  · exact hnested n (hlength ▸ (List.getElem?_eq_some_iff.1 hn).1) hn

theorem parseEntries_append_partedBody :
    HoldsEntries partedBody ∧
    parseEntries (partedBody ++ ';' :: " C(\"c\") '\x7b".toList) =
      .ok [{ name := "A", schemaValue := "a;" }] := by
  have hentries : parseEntries partedBody = .ok [{ name := "A", schemaValue := "a;" }] := by
    decide +kernel
  have hlater : parseEntries " C(\"c\") '\x7b".toList = .ok [{ name := "C", schemaValue := "c" }] := by
    decide +kernel
  obtain ⟨-, happend⟩ := parseEntries_append holdsEntries_partedBody
  exact ⟨holdsEntries_partedBody, (happend _ _).2 ⟨hentries, _, hlater⟩⟩

end Entries

end KotlinSchema
