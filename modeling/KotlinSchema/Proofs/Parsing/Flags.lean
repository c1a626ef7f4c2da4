import KotlinSchema.Proofs.Parsing.Entries
import KotlinSchema.Proofs.Source.Annotations

/-! When an entry is outdated. The flag is searched in the arguments of the entry as they are read,
literals included; so it stands in code or in a literal, and not in a comment or a nested block. Where
literals are ordinary, the arguments are what the parentheses of the entry hold after its value. -/

namespace KotlinSchema
open Text Source

/-- A flag in a text: what stands before it, the blanks around its sign, and what follows it. -/
structure Flag where
  before : List Char
  left : List Char
  right : List Char
  after : List Char

namespace Flag

def chars (f : Flag) : List Char :=
  "outdated".toList ++ (f.left ++ (['='] ++ (f.right ++ "true".toList)))

theorem chars_eq (f : Flag) :
    f.chars = "outdated".toList ++ (f.left ++ (['='] ++ (f.right ++ "true".toList))) := rfl

/-- A text has the flag, in whole words. -/
structure IsIn (f : Flag) (text : List Char) : Prop where
  spelled : text = f.before ++ (f.chars ++ f.after)
  left : ∀ c ∈ f.left, isBlank c = true
  right : ∀ c ∈ f.right, isBlank c = true
  begins : ∀ c ∈ f.before.getLast?, isWord c = false
  ends : ∀ c ∈ f.after.head?, isWord c = false

/-- The words of the flag and its sign stand in a body, in one region and outside of nested blocks. -/
structure StandsIn (f : Flag) (body : List Char) (offset : Nat) (r : Region) : Prop where
  name : StandsAt body offset "outdated".toList r
  sign : StandsAt body (offset + ("outdated".toList ++ f.left).length) ['='] r
  value : StandsAt body (offset + ("outdated".toList ++ (f.left ++ (['='] ++ f.right))).length)
    "true".toList r

end Flag

section Search
variable {before : Option Char} {cs rest : List Char} {e : EntryText}

theorem not_any_isWord {o : Option Char} :
    ¬o.any isWord = true ↔ ∀ c ∈ o, isWord c = false := by
  cases o <;> simp

theorem outdatedFlag?_eq_some_iff :
    outdatedFlag? before cs = some ((), rest) ↔
      (∀ c ∈ before, isWord c = false) ∧ (∀ c ∈ rest.head?, isWord c = false) ∧
        ∃ left right, (∀ c ∈ left, isBlank c = true) ∧ (∀ c ∈ right, isBlank c = true) ∧
          cs = "outdated".toList ++ (left ++ (['='] ++ (right ++ ("true".toList ++ rest)))) := by
  constructor
  · intro h
    simp only [outdatedFlag?] at h
    split at h
    · simp at h
    rename_i hbefore
    simp only [Option.bind_eq_bind, Option.bind_eq_some_iff] at h
    obtain ⟨name, hname, sign, hsign, value, hvalue, h⟩ := h
    split at h
    · simp at h
    rename_i hrest
    obtain ⟨-, rfl⟩ := Prod.mk.inj (Option.some.inj h)
    obtain ⟨left, hleft, hspelled⟩ := exists_blanks name
    obtain ⟨right, hright, hspelled'⟩ := exists_blanks sign
    refine ⟨not_any_isWord.1 hbefore, not_any_isWord.1 hrest, left, right, hleft, hright, ?_⟩
    rw [← after?_eq_some hvalue, ← hspelled', ← after?_eq_some hsign, ← hspelled,
      after?_eq_some hname]
  · rintro ⟨hbefore, hrest, left, right, hleft, hright, rfl⟩
    have hsign : skipBlanks (left ++ (['='] ++ (right ++ ("true".toList ++ rest)))) =
        ['='] ++ (right ++ ("true".toList ++ rest)) := by
      rw [skipBlanks_append hleft]
      exact skipBlanks_cons rfl _
    have hvalue : skipBlanks (right ++ ("true".toList ++ rest)) = "true".toList ++ rest := by
      rw [skipBlanks_append hright]
      exact skipBlanks_cons rfl _
    rw [outdatedFlag?, if_neg (not_any_isWord.2 hbefore), after?_append]
    simp only [Option.bind_eq_bind, Option.bind_some, hsign, hvalue, after?_append]
    rw [if_neg (not_any_isWord.2 hrest)]

theorem isOutdated_iff : e.isOutdated = true ↔ ∃ f : Flag, f.IsIn e.arguments := by
  have hsearch : e.isOutdated = true ↔ ¬Skipped outdatedFlag? none e.arguments [] := by
    rw [← findFrom_eq_nil_iff, EntryText.isOutdated, findAll]
    simp
  rw [hsearch, Skipped]
  constructor
  · intro hfound
    simp only [not_forall] at hfound
    obtain ⟨a, b, hsplit, -, hne⟩ := hfound
    obtain ⟨⟨⟨⟩, rest⟩, hread⟩ := Option.ne_none_iff_exists'.1 hne
    rw [Option.or_none, List.append_nil] at hread
    obtain ⟨hbegins, hends, left, right, hleft, hright, rfl⟩ := outdatedFlag?_eq_some_iff.1 hread
    refine ⟨⟨a, left, right, rest⟩, ?_, hleft, hright, hbegins, hends⟩
    rw [hsplit, Flag.chars_eq]
    simp only [List.append_assoc]
  · rintro ⟨f, hf⟩ hskipped
    have hread : outdatedFlag? f.before.getLast? (f.chars ++ f.after) = some ((), f.after) :=
      outdatedFlag?_eq_some_iff.2 ⟨hf.begins, hf.ends, f.left, f.right, hf.left, hf.right, by
        simp only [Flag.chars_eq, List.append_assoc]⟩
    have hnone := hskipped f.before (f.chars ++ f.after) hf.spelled (by simp [Flag.chars_eq])
    rw [Option.or_none, List.append_nil, hread] at hnone
    exact absurd hnone (by simp)

end Search

/-- The flag is among the arguments of an entry, in a region of the body. -/
def Source.EntryText.FlaggedIn (e : EntryText) (body : List Char) (offset : Nat) (r : Region) :
    Prop :=
  ∃ f : Flag, f.IsIn e.arguments ∧ f.StandsIn body (offset + f.before.length) r

section Regions
variable {body start text rest : List Char} {f : Flag} {e : EntryText}

theorem isWord_flag : (∀ c ∈ "outdated".toList, isWord c = true) ∧
    ∀ c ∈ "true".toList, isWord c = true :=
  ⟨List.all_eq_true.1 rfl, List.all_eq_true.1 rfl⟩

theorem Flag.IsIn.isInner (hf : f.IsIn text) : ∀ c ∈ f.chars, IsInner c := by
  simp only [Flag.chars_eq, List.forall_mem_append]
  exact ⟨fun c hc => isInner_of_isWord (isWord_flag.1 c hc),
    fun c hc => isInner_of_isBlank (hf.left c hc), by simp [IsInner, IsQuote],
    fun c hc => isInner_of_isBlank (hf.right c hc),
    fun c hc => isInner_of_isWord (isWord_flag.2 c hc)⟩

theorem Flag.IsIn.exists_standsIn (hf : f.IsIn text)
    (h : memberText body = .ok (start ++ (text ++ rest))) :
    ∃ r, r ≠ .comment ∧ f.StandsIn body (start.length + f.before.length) r := by
  have hbody : memberText body = .ok ((start ++ f.before) ++ (f.chars ++ (f.after ++ rest))) := by
    simpa [hf.spelled] using h
  have hfirst : ∃ c ∈ f.chars.head?, isWord c = true := ⟨'o', rfl, rfl⟩
  obtain ⟨r, hr, hwords, -⟩ := standsAt_of_stretch hbody hf.isInner hfirst
  rw [List.length_append] at hwords
  refine ⟨r, hr, ?_, ?_, ?_⟩
  · exact hwords [] _ _ rfl (not_isBlanked_of_forall isWord_flag.1)
  · exact hwords ("outdated".toList ++ f.left) ['='] (f.right ++ "true".toList)
      (by simp only [Flag.chars_eq, List.append_assoc]) (by simp [IsBlanked])
  · exact hwords ("outdated".toList ++ (f.left ++ (['='] ++ f.right))) "true".toList []
      (by simp only [Flag.chars_eq, List.append_assoc, List.append_nil])
      (not_isBlanked_of_forall isWord_flag.2)

theorem isOutdated_iff_flaggedIn
    (h : memberText body = .ok (start ++ (e.arguments ++ rest))) :
    e.isOutdated = true ↔
      e.FlaggedIn body start.length .code ∨ e.FlaggedIn body start.length .literal := by
  rw [isOutdated_iff]
  constructor
  · rintro ⟨f, hf⟩
    obtain ⟨r, hr, hstands⟩ := hf.exists_standsIn h
    cases r with
    | code => exact .inl ⟨f, hf, hstands⟩
    | literal => exact .inr ⟨f, hf, hstands⟩
    | comment => exact absurd rfl hr
  · rintro (⟨f, hf, -⟩ | ⟨f, hf, -⟩)
    · exact ⟨f, hf⟩
    · exact ⟨f, hf⟩

end Regions

section Lists
variable {inside own after gap rest : List Char} {ts : List Token}

theorem exists_of_arguments? (h : arguments? ('(' :: inside) = some own) :
    ∃ after, inside = own ++ ')' :: after ∧
      closingOffset? '(' ')' 1 (marked inside) = some own.length := by
  have hmarked : marked ('(' :: inside) = ('(', .code) :: marked inside := rfl
  have hfrom : arguments? ('(' :: inside) =
      ((closingOffset? '(' ')' 1 (marked inside)).map (· + 1)).map fun k => inside.take (k - 1) := by
    rw [← closingOffset?_of_opening (by decide), ← hmarked]
    rfl
  rw [hfrom, Option.map_map, Option.map_eq_some_iff] at h
  obtain ⟨n, hn, rfl⟩ := h
  have hclose := getElem?_of_marked (closingOffset?_eq_some_iff.1 hn).1.1
  obtain ⟨before, after, rfl, rfl⟩ := exists_of_getElem? hclose
  exact ⟨after, by simp, by simpa using hn⟩

theorem isInside_of_arguments? (h : arguments? ('(' :: inside) = some own) (htokens : Tokens ts own)
    (hts : ∀ t ∈ ts, t.IsOrdinary) : IsInside 1 own := by
  obtain ⟨after, rfl, hclosing⟩ := exists_of_arguments? h
  have hmarked : marked (own ++ ')' :: after) = marked own ++ (')', .code) :: marked after :=
    marked_append_cons (by decide) (by decide) (by simp [IsQuote]) (modeAt_tokens htokens) after
  rw [hmarked] at hclosing
  refine ⟨fun n => ?_, ?_⟩
  · rcases n with _ | k
    · exact Int.le_of_eq rfl
    · by_contra hlost
      rw [← balance_take_tokens htokens hts] at hlost
      obtain ⟨j, -, hj⟩ :=
        exists_closingOffset?_le (by decide) Int.le_rfl (Int.lt_add_one_iff.1 (Int.not_le.1 hlost))
      -- The parenthesis that closes the list stands behind its arguments.
      have hlt := (List.getElem?_eq_some_iff.1 (closingOffset?_eq_some_iff.1 hj).1.1).1
      obtain rfl := Option.some.inj ((closingOffset?_append_right hj _).symm.trans hclosing)
      exact absurd hlt (by simp)
  · have hzero := (closingOffset?_eq_some_iff.1 hclosing).1.2
    have htake : (marked own ++ (')', Region.code) :: marked after).take (own.length + 1) =
        marked own ++ [(')', .code)] := by
      rw [← length_marked own, List.take_length_add_append]
      rfl
    have hall := balance_take_tokens htokens hts own.length
    rw [List.take_length, List.take_of_length_le (length_marked own).le] at hall
    have hlast : balance '(' ')' [(')', .code)] = -1 := rfl
    rw [htake, balance_append, hall, hlast] at hzero
    omega

theorem exists_of_gap (hgap : ∀ c ∈ gap, isBlank c = true) (hrest : rest.head? = some '"')
    (h : gap ++ rest = own ++ ')' :: after) :
    ∃ own', own' ≠ [] ∧ own = gap ++ own' ∧ rest = own' ++ ')' :: after := by
  rcases List.append_eq_append_iff.1 h with ⟨own', rfl, rfl⟩ | ⟨blanks, rfl, hafter⟩
  · refine ⟨own', ?_, rfl, rfl⟩
    rintro rfl
    simp at hrest
  · cases blanks with
    | nil =>
      rw [List.nil_append] at hafter
      simp [← hafter] at hrest
    | cons c blanks =>
      obtain rfl : ')' = c := (List.cons.inj hafter).1
      exact absurd (hgap ')' (by simp)) (by decide)

end Lists

/-- Where an entry stands in a text: its name before the parenthesis, and inside of it the value,
the arguments and the parenthesis that they are read up to. -/
structure Source.EntryText.ListedIn (e : EntryText) (text start gap rest : List Char) : Prop where
  name : ∃ before blanks, start = before ++ (e.name ++ blanks) ∧
    offsetOf text e.nameAt = before.length ∧ ∀ c ∈ blanks, isBlank c = true
  isGap : ∀ c ∈ gap, isBlank c = true
  list : text = start ++ '(' :: (gap ++ (e.value ++ (e.arguments ++ ')' :: rest)))
  reads : literal? (e.value ++ (e.arguments ++ ')' :: rest)) =
    some (e.value, e.arguments ++ ')' :: rest)
  closes : groupEnd? (fun nesting => nesting == .outer) .outer false
    (e.arguments ++ ')' :: rest) = some rest

section Entries
variable {body text place start gap rest own : List Char} {before : Option Char} {e : EntryText}
  {ts : List Token}

theorem exists_listedIn (hplace : place <:+ text)
    (hread : entryText? before place = some (e, rest)) :
    ∃ start gap, e.ListedIn text start gap rest := by
  obtain ⟨-, afterName, inside, more, hname, hinside, hvalue, hstop, harguments⟩ :=
    exists_of_entryText? hread
  obtain ⟨-, -, hspelled⟩ := eq_append_of_takeWord1? hname
  obtain ⟨blanks, hblanks, hafter⟩ := exists_blanks afterName
  obtain ⟨gap, hgap, hgapped⟩ := exists_blanks inside
  obtain ⟨inner, rfl, -⟩ := closesList_of_groupEnd? hstop
  obtain rfl : e.arguments = inner := by
    rw [harguments, List.append_cons, between_append, List.dropLast_concat]
  obtain ⟨-, hspelled'⟩ := eq_append_of_literal? hvalue
  obtain ⟨start, rfl⟩ := (nameAt_of_entryText? hread).1.trans hplace
  refine ⟨start ++ (e.name ++ blanks), gap, ⟨start, blanks, rfl, offsetOf_append .., hblanks⟩,
    hgap, ?_, ?_, hstop⟩
  · rw [hspelled, hafter, hinside, hgapped, hspelled']
    simp
  · rw [← hspelled', hvalue]

theorem Source.EntryText.ListedIn.eq_of_arguments? (h : e.ListedIn text start gap rest)
    (hown : arguments? (text.drop start.length) = some own) (htokens : Tokens ts own)
    (hts : ∀ t ∈ ts, t.IsOrdinary) : own = gap ++ (e.value ++ e.arguments) := by
  rw [h.list, List.drop_left] at hown
  have hinside := isInside_of_arguments? hown htokens hts
  obtain ⟨after, hafter, -⟩ := exists_of_arguments? hown
  have hvalue : (e.value ++ (e.arguments ++ ')' :: rest)).head? = some '"' := by
    rw [List.head?_append, (eq_append_of_literal? h.reads).1, Option.some_or]
  obtain ⟨own', hne, rfl, hrest⟩ := exists_of_gap h.isGap hvalue hafter
  have hordinary : Ordinary own' :=
    (ordinary_of_tokens htokens hts).of_append fun c hc => (ne_of_isBlank (h.isGap c hc)).1
  have hreads := h.reads
  rw [hrest] at hreads
  obtain ⟨inner, rfl, hinner, hordinary', hzero⟩ := exists_of_literal? hordinary hne hreads
  have hlist : IsInside Nesting.outer.depth inner := by
    have hgap := parens_of_forall fun c hc => (ne_of_isBlank (h.isGap c hc)).2
    simpa [hgap, hzero, Nesting.depth] using hinside.of_append.of_append
  have hcloses := h.closes
  rw [hinner] at hcloses
  obtain rfl : rest = after := eq_of_groupEnd? hordinary' hlist hcloses
  rw [List.append_cancel_right hinner]

/-- An entry is outdated exactly if the flag stands as a whole, in code or in a literal but not in a
comment or a nested block, among the arguments that are read after its value. These are the
arguments in its own parentheses if the literals there are ordinary. -/
theorem parseEntries_flags {es : List EnumEntry} (h : parseEntries body = .ok es) :
    ∃ text ms, memberText body = .ok text ∧ Finds entryText? none (entrySection text) ms ∧
      es = ms.map (entryOf ·.item) ∧ ∀ m ∈ ms, ∃ start gap rest,
        m.item.ListedIn (entrySection text) start gap rest ∧
        ((entryOf m.item).isOutdated = true ↔
          m.item.FlaggedIn body (start ++ '(' :: (gap ++ m.item.value)).length .code ∨
          m.item.FlaggedIn body (start ++ '(' :: (gap ++ m.item.value)).length .literal) ∧
        ∀ own ts, arguments? ((entrySection text).drop start.length) = some own → Tokens ts own →
          (∀ t ∈ ts, t.IsOrdinary) → own = gap ++ (m.item.value ++ m.item.arguments) := by
  obtain ⟨text, ms, htext, hms, hes⟩ := exists_of_parseEntries h
  refine ⟨text, ms, htext, hms, hes, fun m hm => ?_⟩
  have hmem : m.item ∈ findAll entryText? (entrySection text) := by
    rw [findAll, hms.findFrom_eq]
    exact List.mem_map_of_mem hm
  obtain ⟨_, place, rest, hplace, hread⟩ := mem_findFrom hmem
  obtain ⟨start, gap, hlisted⟩ := exists_listedIn hplace hread
  obtain ⟨after, hafter⟩ := isPrefix_entrySection text
  have hbody : memberText body = .ok ((start ++ '(' :: (gap ++ m.item.value)) ++
      (m.item.arguments ++ (')' :: rest ++ after))) := by
    rw [htext, ← hafter, hlisted.list]
    simp
  exact ⟨start, gap, rest, hlisted, isOutdated_iff_flaggedIn hbody,
    fun own ts hown htokens hts => hlisted.eq_of_arguments? hown htokens hts⟩

def flaggedBody : List Char := "A(\"a\", f(\"x\"), outdated = true), B(\"b\", \"y\")".toList

theorem parseEntries_flags_flaggedBody :
    parseEntries flaggedBody = .ok [{ name := "A", schemaValue := "a", isOutdated := true },
      { name := "B", schemaValue := "b" }] ∧
    ∃ text m m' start gap rest, Finds entryText? none (entrySection text) [m, m'] ∧
      m.item.ListedIn (entrySection text) start gap rest ∧
      m.item.FlaggedIn flaggedBody (start ++ '(' :: (gap ++ m.item.value)).length .code := by
  have hparse : parseEntries flaggedBody =
      .ok [{ name := "A", schemaValue := "a", isOutdated := true },
        { name := "B", schemaValue := "b" }] := by decide +kernel
  have hnone : ('o', Region.literal) ∉ marked flaggedBody := by decide +kernel
  obtain ⟨text, ms, -, hms, hes, hflags⟩ := parseEntries_flags hparse
  obtain ⟨m, ms, rfl, hentry, hrest⟩ := List.map_eq_cons_iff.1 hes.symm
  obtain ⟨m', ms, rfl, -, hnil⟩ := List.map_eq_cons_iff.1 hrest
  obtain rfl := List.map_eq_nil_iff.1 hnil
  obtain ⟨start, gap, rest, hlisted, hiff, -⟩ := hflags m List.mem_cons_self
  refine ⟨hparse, text, m, m', start, gap, rest, hms, hlisted, ?_⟩
  rcases hiff.1 (by rw [hentry]) with hcode | ⟨f, -, hliteral⟩
  · exact hcode
  · exact absurd (List.mem_of_getElem? (hliteral.name 0 'o' rfl).1) hnone

def swappedBody : List Char :=
  "A(\"a\", \"outdated = true\"),\nB(\"b\", ')', outdated = true)".toList

/-- The first entry is outdated and the second is not, though the flag is code among the arguments of
the second only. -/
theorem parseEntries_swappedBody :
    parseEntries swappedBody = .ok [{ name := "A", schemaValue := "a", isOutdated := true },
      { name := "B", schemaValue := "b" }] ∧
    (arguments? (swappedBody.drop 1)).map (mask false) = some "   ,                  ".toList ∧
    (arguments? (swappedBody.drop 28)).map (mask false) =
      some "   ,    , outdated = true".toList := by
  refine ⟨?_, ?_, ?_⟩ <;> decide +kernel

end Entries

end KotlinSchema
