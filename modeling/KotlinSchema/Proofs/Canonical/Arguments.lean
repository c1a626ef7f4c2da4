import KotlinSchema.Proofs.Canonical.Members

/-! Entries with further arguments. The reader of entries passes argument lists in which calls have
no calls among their arguments; an entry with such a list is read, whatever stands around it in the
list of entries. -/

namespace KotlinSchema.Canonical
open Text Source

/-- Argument lists in which parentheses nest once. Outside of nested parentheses a literal holds
anything that stands between double quotes on one line; elsewhere it holds no parentheses. -/
inductive Flat : Nesting → List Token → Prop where
  | nil : Flat .outer []
  | opening {h : ¬IsQuote '('} {ts : List Token} : Flat .inner ts → Flat .outer (.code '(' h :: ts)
  | closing {h : ¬IsQuote ')'} {ts : List Token} : Flat .outer ts → Flat .inner (.code ')' h :: ts)
  | comment {nesting : Nesting} {t : Token} {ts : List Token} :
    t.region = .comment → Flat nesting ts → Flat nesting (t :: ts)
  | quoted {content : List Char} {hquote : IsQuote '"'} {h : Quotable '"' content}
      {ts : List Token} :
    '\n' ∉ content → Flat .outer ts → Flat .outer (.quoted '"' content hquote h :: ts)
  | raw {content : List Char} {h : ¬['"', '"', '"'] <:+: content}
      {hlast : content.getLast? ≠ some '"'} {ts : List Token} :
    Quotable '"' content → '\n' ∉ content → Flat .outer ts →
      Flat .outer (.raw content 0 h hlast :: ts)
  | plain {nesting : Nesting} {t : Token} {ts : List Token} :
    (∀ c ∈ t.chars, c ≠ '(' ∧ c ≠ ')' ∧ (nesting = .outer → c ≠ '"')) → Flat nesting ts →
      Flat nesting (t :: ts)

section Lists
variable {nesting : Nesting} {ts : List Token} {content rest : List Char}

theorem spells_of_quotable (h : Quotable '"' content) (hline : '\n' ∉ content) :
    ∃ value, Spells content value := by
  induction h with
  | nil => exact ⟨[], .nil⟩
  | plain hquote hslash _ ih =>
    rw [List.mem_cons, not_or] at hline
    obtain ⟨value, hvalue⟩ := ih hline.2
    exact ⟨_, .plain hquote hslash (Ne.symm hline.1) hvalue⟩
  | pair _ ih =>
    simp only [List.mem_cons, not_or] at hline
    obtain ⟨value, hvalue⟩ := ih hline.2.2
    exact ⟨_, .escaped (Ne.symm hline.2.1) hvalue⟩

def displayed (t : Token) : List Char := t.chars.map fun c => shown true (c, t.region)

theorem displayed_eq {t : Token} (h : t.region ≠ .comment) : displayed t = t.chars := by
  refine List.map_id'' (fun c => shown_of_kept ?_) _
  cases hr : t.region <;> simp_all [Region.isKept]

theorem mask_tokens {source : List Char} (h : Tokens ts source) :
    mask true source = ts.flatMap displayed := by
  rw [mask, marked_tokens h, List.map_flatMap]
  exact List.flatMap_congr fun t _ => by rw [List.map_map]; rfl

abbrev isOuter (nesting : Nesting) : Bool := nesting == .outer

theorem groupEnd?_quoted (h : Quotable '"' content) (hline : '\n' ∉ content) (rest : List Char) :
    groupEnd? isOuter .outer false (['"'] ++ (content ++ ['"']) ++ rest) =
      groupEnd? isOuter .outer false rest := by
  obtain ⟨value, hvalue⟩ := spells_of_quotable h hline
  have htext : ['"'] ++ (content ++ ['"']) ++ rest = '"' :: (content ++ '"' :: rest) := by simp
  rw [htext, groupEnd?, if_pos ⟨rfl, rfl⟩, groupEnd?_of_spells hvalue]

theorem groupEnd?_of_flat (h : Flat nesting ts) (rest : List Char) :
    groupEnd? isOuter nesting false (ts.flatMap displayed ++ rest) =
      groupEnd? isOuter .outer false rest := by
  induction h with
  | nil => rfl
  | opening _ ih =>
    rw [List.flatMap_cons, displayed_eq (by simp [Token.region]), List.append_assoc, ← ih]
    simp [Token.chars, groupEnd?]
  | closing _ ih =>
    rw [List.flatMap_cons, displayed_eq (by simp [Token.region]), List.append_assoc, ← ih]
    simp [Token.chars, groupEnd?]
  | comment hcomment _ ih =>
    rw [List.flatMap_cons, List.append_assoc, ← ih]
    refine groupEnd?_of_plain (fun c hc => ?_) _
    obtain ⟨d, -, rfl⟩ := List.mem_map.1 hc
    have hblank : shown true (d, .comment) = ' ' ∨ shown true (d, .comment) = '\n' :=
      shown_of_not_kept rfl
    rw [hcomment]
    rcases hblank with hblank | hblank <;> simp [hblank]
  | @quoted content _ hcontent _ hline _ ih =>
    rw [List.flatMap_cons, displayed_eq (by simp [Token.region]), List.append_assoc, ← ih]
    exact groupEnd?_quoted hcontent hline _
  | @raw content h hlast _ hcontent hline _ ih =>
    -- The quotes make two empty literals around one with the content.
    have htext : (Token.raw content 0 h hlast).chars =
        (['"'] ++ ([] ++ ['"'])) ++ ((['"'] ++ (content ++ ['"'])) ++ (['"'] ++ ([] ++ ['"']))) := by
      simp [Token.chars, List.replicate]
    rw [List.flatMap_cons, displayed_eq (by simp [Token.region]), List.append_assoc, ← ih, htext,
      List.append_assoc, groupEnd?_quoted .nil List.not_mem_nil, List.append_assoc,
      groupEnd?_quoted hcontent hline, groupEnd?_quoted .nil List.not_mem_nil]
  | plain hplain _ ih =>
    rw [List.flatMap_cons, List.append_assoc, ← ih]
    refine groupEnd?_of_plain (fun c hc => ?_) _
    obtain ⟨d, hd, rfl⟩ := List.mem_map.1 hc
    obtain ⟨hopen, hclose, hquote⟩ := hplain d hd
    rcases shown_eq_self_or_blank true (d, _) with hshown | hshown
    · rw [hshown]
      exact ⟨hopen, hclose, fun houter => hquote (by simpa using houter)⟩
    · rw [hshown]
      exact ⟨by decide, by decide, fun _ => by decide⟩

end Lists

/-- An entry with its schema value and further arguments: a flat list without blocks. Its name begins
with an ASCII letter or an underscore. -/
structure ArgumentEntry where
  name : List Char
  isWord : ∀ c ∈ name, Text.isWord c = true
  head_isAlpha : ∃ c ∈ name.head?, c.isAlpha = true ∨ c = '_'
  value : Literal
  arguments : List Char
  tokens : List Token
  isTokens : Tokens tokens arguments
  isFlat : Flat .outer tokens
  noBlock : ∀ c ∈ mask false arguments, c ≠ '{' ∧ c ≠ '}' ∧ c ≠ ';'

namespace ArgumentEntry
variable (e : ArgumentEntry)

def print : List Char :=
  (e.name ++ ['(']) ++ (e.value.text ++ ([',', ' '] ++ (e.arguments ++ [')', ',', '\n'])))

def marks : List Marked :=
  (e.name ++ ['(']).map (·, .code) ++ (e.value.text.map (·, .literal) ++
    ([',', ' '].map (·, .code) ++ (marked e.arguments ++ [')', ',', '\n'].map (·, .code))))

theorem isInert_name : ∀ c ∈ e.name ++ ['('], isInert c = true :=
  inert_append (fun c hc => isInert_of_isWord (e.isWord c hc)) (inert_of_all rfl)

theorem mark_print (rest : List Char) :
    mark .code (e.print ++ rest) = e.marks ++ mark .code rest := by
  have hend : mark .code (e.arguments ++ ')' :: (',' :: '\n' :: rest)) =
      marked e.arguments ++ ([')', ',', '\n'].map (·, .code) ++ mark .code rest) := by
    rw [mark_append (by decide) (by decide) (by decide), modeAt_tokens e.isTokens, marked]
    exact congrArg _ (mark_of_isPlain (a := [')', ',', '\n']) (List.all_eq_true.1 rfl) rest)
  have hvalue : mark .code (e.value.text ++ ([',', ' '] ++
      (e.arguments ++ ')' :: (',' :: '\n' :: rest)))) = e.value.text.map (·, .literal) ++
        ([',', ' '].map (·, .code) ++ mark .code (e.arguments ++ ')' :: (',' :: '\n' :: rest))) := by
    rw [e.value.isLiteral.mark_eq _ (by simp), mark_of_isPlain (List.all_eq_true.1 rfl)]
  have htext : e.print ++ rest = (e.name ++ ['(']) ++ (e.value.text ++ ([',', ' '] ++
      (e.arguments ++ ')' :: (',' :: '\n' :: rest)))) := by
    simp [print]
  rw [htext, mark_of_isPlain (plain_of_inert e.isInert_name), hvalue, hend]
  simp only [marks, List.append_assoc]

theorem noBlock_marks {m : Marked} (hm : m ∈ e.marks) (hcode : m.2 = .code) :
    m.1 ≠ '{' ∧ m.1 ≠ '}' ∧ m.1 ≠ ';' := by
  have hinert {a : List Char} (ha : ∀ c ∈ a, isInert c = true)
      (hmem : m ∈ a.map (·, Region.code)) : m.1 ≠ '{' ∧ m.1 ≠ '}' ∧ m.1 ≠ ';' := by
    obtain ⟨c, hc, rfl⟩ := List.mem_map.1 hmem
    have h := (isInert_iff.1 (ha c hc)).2
    exact ⟨h.1, h.2.1, h.2.2.1⟩
  simp only [marks, List.mem_append] at hm
  rcases hm with hm | hm | hm | hm | hm
  · exact hinert e.isInert_name (by simpa using hm)
  · obtain ⟨c, -, rfl⟩ := List.mem_map.1 hm
    simp at hcode
  · exact hinert (inert_of_all rfl) hm
  · exact e.noBlock _ (mem_of_shown rfl hm hcode)
  · exact hinert (inert_of_all rfl) hm

def head : List Char :=
  e.name ++ '(' :: (e.value.text ++ (([',', ' '] ++ mask true e.arguments) ++ [')']))

theorem head_append (rest : List Char) :
    e.head ++ rest =
      e.name ++ '(' :: (e.value.text ++ (([',', ' '] ++ mask true e.arguments) ++ ')' :: rest)) := by
  simp [head]

theorem map_shown_marks : e.marks.map (shown true) = e.head ++ [',', '\n'] := by
  have hvalue := (map_shown_literal e.value.isLiteral).1
  have harguments : (marked e.arguments).map (shown true) = mask true e.arguments := rfl
  simp only [marks, List.map_append, map_shown_code, hvalue, harguments, head_append]
  simp

theorem entryText?_head {before : Option Char} (hbefore : canBeginName before = true)
    (rest : List Char) :
    ∃ found, entryText? before (e.head ++ rest) = some (found, rest) ∧
      found.name = e.name ∧ found.value = e.value.text := by
  have hgroup : groupEnd? isOuter .outer false
      (([',', ' '] ++ mask true e.arguments) ++ ')' :: rest) = some rest := by
    rw [List.append_assoc, groupEnd?_of_isArgumentChar (List.all_eq_true.1 rfl),
      mask_tokens e.isTokens, groupEnd?_of_flat e.isFlat]
    simp [groupEnd?]
  rw [head_append]
  exact ⟨_, entryText?_call [] e.value e.isWord e.head_isAlpha hgroup hbefore, rfl, rfl⟩

end ArgumentEntry

section Bodies
variable (entries : List ArgumentEntry)

theorem marked_flatMap_print :
    marked (entries.flatMap (·.print)) = entries.flatMap (·.marks) := by
  induction entries with
  | nil => rfl
  | cons e entries ih =>
    rw [List.flatMap_cons, marked, e.mark_print, ← marked, ih, List.flatMap_cons]

theorem mask_flatMap_print :
    mask true (entries.flatMap (·.print)) = entries.flatMap fun e => e.head ++ [',', '\n'] := by
  rw [mask, marked_flatMap_print, List.map_flatMap]
  exact List.flatMap_congr fun e _ => e.map_shown_marks

theorem noBlock_print {m : Marked} (hm : m ∈ marked (entries.flatMap (·.print)))
    (hcode : m.2 = .code) : m.1 ≠ '{' ∧ m.1 ≠ '}' ∧ m.1 ≠ ';' := by
  rw [marked_flatMap_print] at hm
  obtain ⟨e, -, hm⟩ := List.mem_flatMap.1 hm
  exact e.noBlock_marks hm hcode

/-- No entry of a list is lost and none is added, if the further arguments of each are a flat list. -/
theorem parseEntries_flat :
    ∃ found, parseEntries (entries.flatMap (·.print)) = .ok found ∧
      found.map (fun e => (e.name, e.schemaValue)) =
        entries.map fun e => (String.ofList e.name, e.value.string) := by
  have htext : memberText (entries.flatMap (·.print)) =
      .ok (mask true (entries.flatMap (·.print))) := by
    refine memberText_of_ne_brace fun m hm => ⟨?_, ?_⟩ <;> rintro rfl
    · exact (noBlock_print entries hm rfl).1 rfl
    · exact (noBlock_print entries hm rfl).2.1 rfl
  have hsection : entrySection (mask true (entries.flatMap (·.print))) =
      mask true (entries.flatMap (·.print)) := by
    refine entrySection_eq_self fun m hm => ?_
    rintro rfl
    rw [marked_mask] at hm
    obtain ⟨n, hn, heq⟩ := List.mem_map.1 hm
    rw [remark_eq_code_iff (by decide) (by decide)] at heq
    subst heq
    exact (noBlock_print entries hn rfl).2.2 rfl
  refine ⟨_, parseEntries_of_memberText htext, ?_⟩
  rw [hsection, mask_flatMap_print, findAll, List.map_map]
  refine map_findFrom_items (fun e => ?_)
    (fun e es before (hbefore : canBeginName before = true) => ?_)
    (fun e => quiet_entryText? Separator.comma.isBlank) (fun e => rfl) entries rfl
  · simp [ArgumentEntry.head]
  · obtain ⟨found, hread, hname, hvalue⟩ := e.entryText?_head hbefore _
    refine ⟨found, hread, ?_⟩
    simp only [Function.comp_apply, entryOf, hname, hvalue, literalText_text]
    rfl

theorem noBlock_call :
    ∀ c ∈ mask false "f(\"x\"), \")\"".toList, c ≠ '{' ∧ c ≠ '}' ∧ c ≠ ';' := by
  have hall : (mask false "f(\"x\"), \")\"".toList).all
      (fun c => c != '{' && c != '}' && c != ';') = true := by decide +kernel
  intro c hc
  simpa [and_assoc] using List.all_eq_true.1 hall c hc

def callEntry : ArgumentEntry where
  name := ['A']
  isWord := List.forall_mem_singleton.2 rfl
  head_isAlpha := ⟨'A', rfl, .inl rfl⟩
  value := .of "a"
  arguments := "f(\"x\"), \")\"".toList
  tokens := [.code 'f' (by simp [IsQuote]), .code '(' (by simp [IsQuote]),
    .quoted '"' ['x'] isQuote_double (.plain (by decide) (by decide) .nil),
    .code ')' (by simp [IsQuote]), .code ',' (by simp [IsQuote]), .code ' ' (by simp [IsQuote]),
    .quoted '"' [')'] isQuote_double (.plain (by decide) (by decide) .nil)]
  isTokens := by
    refine .cons ?_ (.cons ?_ (.cons ?_ (.cons ?_ (.cons ?_ (.cons ?_ (.cons ?_ .nil)))))) <;>
      simp [Token.EndsBefore]
  isFlat := by
    refine .plain ?_ (.opening (.plain ?_ (.closing (.plain ?_ (.plain ?_ (.quoted ?_ .nil)))))) <;>
      simp [Token.chars]
  noBlock := noBlock_call

theorem parseEntries_flat_callEntry :
    ∃ found, parseEntries "A(\"a\", f(\"x\"), \")\"),\n".toList = .ok found ∧
      found.map (fun e => (e.name, e.schemaValue)) = [("A", "a")] := by
  obtain ⟨found, hfound, hentries⟩ := parseEntries_flat [callEntry]
  exact ⟨found, hfound, hentries⟩

/-- A call among the arguments of a call loses the entry. -/
theorem parseEntries_nestedCall : parseEntries "A(\"a\", f(g())),\n".toList = .ok [] := by
  decide +kernel

end Bodies

end KotlinSchema.Canonical
