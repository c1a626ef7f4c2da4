import KotlinSchema.Proofs.Source.Stretches

/-! Texts as sequences of tokens: single characters of code, comments and literals. The reader of
regions comes to an end in code exactly on the sequences of tokens that are kept apart, and what it
keeps of them are the characters of their code, with those of their literals on request. -/

namespace KotlinSchema.Source

/-- The content of a literal: characters other than its quote and the backslash, and pairs of a
backslash and any character. -/
inductive Quotable (quote : Char) : List Char → Prop where
  | nil : Quotable quote []
  | plain {c : Char} {content : List Char} :
    c ≠ quote → c ≠ '\\' → Quotable quote content → Quotable quote (c :: content)
  | pair {c : Char} {content : List Char} :
    Quotable quote content → Quotable quote ('\\' :: c :: content)

/-- A raw literal is closed by three quotes and `extra` more. -/
inductive Token where
  | code (c : Char) (h : ¬IsQuote c)
  | lineComment (text : List Char) (h : '\n' ∉ text)
  | blockComment (text : List Char) (h : ¬['*', '/'] <:+: text)
  | quoted (quote : Char) (content : List Char) (hquote : IsQuote quote)
    (h : Quotable quote content)
  | raw (content : List Char) (extra : Nat) (h : ¬['"', '"', '"'] <:+: content)
    (hlast : content.getLast? ≠ some '"')

namespace Token

def chars : Token → List Char
  | code c _ => [c]
  | lineComment text _ => ['/', '/'] ++ (text ++ ['\n'])
  | blockComment text _ => ['/', '*'] ++ (text ++ ['*', '/'])
  | quoted quote content _ _ => [quote] ++ (content ++ [quote])
  | raw content extra _ _ => ['"', '"', '"'] ++ (content ++ List.replicate (3 + extra) '"')

def region : Token → Region
  | code .. => .code
  | lineComment .. | blockComment .. => .comment
  | quoted .. | raw .. => .literal

/-- Whether a token is over where a text follows it. A slash must not begin a comment there, nor an
empty literal a raw one, and the quotes that close a raw literal must be all there are. -/
def EndsBefore : Token → List Char → Prop
  | code c _, rest => c = '/' → rest.head? ≠ some '/' ∧ rest.head? ≠ some '*'
  | quoted quote content _ _, rest => quote = '"' → content = [] → rest.head? ≠ some '"'
  | raw .., rest => rest.head? ≠ some '"'
  | _, _ => True

end Token

/-- A text is a sequence of tokens, each of which is over where the next one begins. -/
inductive Tokens : List Token → List Char → Prop where
  | nil : Tokens [] []
  | cons {t : Token} {ts : List Token} {rest : List Char} :
    t.EndsBefore rest → Tokens ts rest → Tokens (t :: ts) (t.chars ++ rest)

def keptTokens (keepLiterals : Bool) : Nat → List Token → List (Nat × Char)
  | _, [] => []
  | offset, t :: ts =>
    (if t.region.isKept keepLiterals then (t.chars.zipIdx offset).map Prod.swap else []) ++
      keptTokens keepLiterals (offset + t.chars.length) ts

/-- From a mode the reader takes a stretch, all of it in one region, and is in another mode before
the rest. -/
inductive Reads : Mode → List Char → List Char → Region → Mode → Prop where
  | nil {mode : Mode} {rest : List Char} {r : Region} : Reads mode [] rest r mode
  | cons {mode next after : Mode} {c : Char} {a rest : List Char} {r : Region} :
    step mode c (a ++ rest) = (r, next) → Reads next a rest r after →
    Reads mode (c :: a) rest r after

section Reading
variable {mode next after : Mode} {a b rest : List Char} {r : Region} {quote : Char}

theorem Reads.mark_eq (h : Reads mode a rest r after) :
    mark mode (a ++ rest) = a.map (·, r) ++ mark after rest := by
  induction h with
  | nil => rfl
  | cons hstep _ ih => rw [List.cons_append, mark_cons, hstep, ih, List.map_cons, List.cons_append]

theorem Reads.modeAt_eq (h : Reads mode a rest r after) :
    modeAt mode (a ++ rest) (a ++ rest).length = modeAt after rest rest.length := by
  induction h with
  | nil => rfl
  | cons hstep _ ih => rw [List.cons_append, List.length_cons, modeAt, hstep, ih]

theorem not_end_infix_cons {c : Char} (h : ¬['*', '/'] <:+: a) (rest : List Char) :
    ¬['*', '/'] <:+: c :: a ↔ ¬(c = '*' ∧ (a ++ ['*', '/'] ++ rest).head? = some '/') := by
  rw [List.infix_cons_iff, not_or, and_iff_left h, not_iff_not]
  constructor
  · rintro ⟨tail, htail⟩
    obtain ⟨rfl, rfl⟩ : '*' = c ∧ '/' :: tail = a := by simpa using htail
    exact ⟨rfl, rfl⟩
  · rintro ⟨rfl, hhead⟩
    cases a with
    | nil => simp at hhead
    | cons d a =>
      obtain rfl : d = '/' := by simpa using hhead
      exact ⟨a, rfl⟩

theorem reads_lineComment (h : '\n' ∉ a) (rest : List Char) :
    Reads .lineComment (a ++ ['\n']) rest .comment .code := by
  induction a with
  | nil => exact .cons rfl .nil
  | cons c a ih =>
    rw [List.mem_cons, not_or] at h
    rw [List.cons_append]
    exact .cons (by simp [step, Ne.symm h.1]) (ih h.2)

theorem reads_blockComment (h : ¬['*', '/'] <:+: a) (rest : List Char) :
    Reads .blockComment (a ++ ['*', '/']) rest .comment .code := by
  induction a with
  | nil => exact .cons rfl (.cons rfl .nil)
  | cons c a ih =>
    have ha : ¬['*', '/'] <:+: a := fun hi => h (List.infix_cons hi)
    rw [List.cons_append]
    exact .cons (by rw [step_blockComment_eq, if_neg ((not_end_infix_cons ha rest).1 h)]) (ih ha)

theorem reads_quoted (hquote : IsQuote quote) (h : Quotable quote a) (rest : List Char) :
    Reads (.quoted quote) (a ++ [quote]) rest .literal .code := by
  have hslash : quote ≠ '\\' := by rcases hquote with rfl | rfl <;> decide
  induction h with
  | nil => exact .cons (by simp [step, hslash]) .nil
  | plain hne hback _ ih => exact .cons (by simp [step, hne, hback]) ih
  | pair _ ih =>
    have hback (a : List Char) : step (.quoted quote) '\\' a = (.literal, .escaped quote) := by
      simp [step]
    exact .cons (hback _) (.cons rfl ih)

theorem reads_rawClosing (n : Nat) (h : rest.head? ≠ some '"') :
    Reads .rawClosing (List.replicate (n + 1) '"') rest .literal .code := by
  induction n with
  | zero => exact .cons (by simp [step_rawClosing_eq, h]) .nil
  | succ n ih => exact .cons (by simp [step_rawClosing_eq, List.replicate_succ]) ih

theorem reads_raw (h : ¬['"', '"', '"'] <:+: a) (hlast : a.getLast? ≠ some '"') (n : Nat)
    (hrest : rest.head? ≠ some '"') :
    Reads .raw (a ++ List.replicate (3 + n) '"') rest .literal .code := by
  induction a with
  | nil =>
    rw [List.nil_append, Nat.add_comm, List.replicate_succ]
    exact .cons (by simp [step_raw_eq, List.replicate_succ]) (reads_rawClosing (n + 1) hrest)
  | cons c a ih =>
    rw [List.infix_cons_iff, not_or] at h
    have hstep : ¬(c = '"' ∧ (a ++ List.replicate (3 + n) '"' ++ rest).take 2 = ['"', '"']) := by
      rintro ⟨rfl, htake⟩
      -- The content does not end with this quote, nor with the next one.
      rcases a with _ | ⟨d, _ | ⟨e, a⟩⟩
      · simp at hlast
      · simp_all
      · obtain ⟨rfl, rfl⟩ : d = '"' ∧ e = '"' := by simpa using htake
        exact h.1 ⟨a, rfl⟩
    rw [List.cons_append]
    refine .cons (by rw [step_raw_eq, if_neg hstep]) (ih h.2 ?_)
    cases a with
    | nil => simp
    | cons d a => simpa using hlast

theorem step_opening (hquote : IsQuote quote) (h : Quotable quote a)
    (hends : quote = '"' → a = [] → rest.head? ≠ some '"') :
    step .code quote (a ++ [quote] ++ rest) = (.literal, .quoted quote) := by
  rcases hquote with rfl | rfl
  · have hraw : (a ++ ['"'] ++ rest).take 2 ≠ ['"', '"'] := by
      cases h with
      | nil => cases rest <;> simp_all
      | plain hne => simp [hne]
      | pair => simp
    rw [step_code_eq, if_neg (by simp), if_neg (by simp), if_neg fun h => hraw h.2,
      if_pos (.inl rfl)]
  · simp [step_code_eq]

theorem reads_token {t : Token} (h : t.EndsBefore rest) :
    Reads .code t.chars rest t.region .code := by
  cases t with
  | code c hc =>
    have hstep : step .code c rest = (.code, .code) := by
      simp only [IsQuote, not_or] at hc
      simp only [Token.EndsBefore] at h
      grind [step_code_eq]
    exact .cons hstep .nil
  | lineComment text htext => exact .cons rfl (.cons rfl (reads_lineComment htext rest))
  | blockComment text htext => exact .cons rfl (.cons rfl (reads_blockComment htext rest))
  | quoted quote content hquote hcontent =>
    exact .cons (step_opening hquote hcontent h) (reads_quoted hquote hcontent rest)
  | raw content extra hcontent hlast =>
    exact .cons rfl (.cons rfl (.cons rfl (reads_raw hcontent hlast extra h)))

theorem mark_quoted {content : List Char} (h : Quotable '"' content)
    (hrest : rest.head? ≠ some '"') :
    mark .code (['"'] ++ content ++ ['"'] ++ rest) =
      (['"'] ++ content ++ ['"']).map (·, .literal) ++ mark .code rest := by
  have hends : (Token.quoted '"' content (.inl rfl) h).EndsBefore rest := fun _ _ => hrest
  rw [List.append_assoc ['"'] content]
  exact (reads_token hends).mark_eq

theorem marked_tokens {ts : List Token} {source : List Char} (h : Tokens ts source) :
    marked source = ts.flatMap fun t => t.chars.map (·, t.region) := by
  induction h with
  | nil => rfl
  | cons hends _ ih =>
    rw [marked, (reads_token hends).mark_eq, List.flatMap_cons]
    exact congrArg _ ih

theorem modeAt_tokens {ts : List Token} {source : List Char} (h : Tokens ts source) :
    modeAt .code source source.length = .code := by
  induction h with
  | nil => rfl
  | cons hends _ ih => rw [(reads_token hends).modeAt_eq, ih]

end Reading

/-! What is left open is not closed by the end of a text; so a text that is read to code has the
end of all that it opens. -/

section Endings
variable {source : List Char} {quote : Char}

theorem exists_lineComment (h : modeAt .lineComment source source.length = .code) :
    ∃ text rest, source = text ++ ['\n'] ++ rest ∧ '\n' ∉ text ∧
      modeAt .code rest rest.length = .code := by
  induction source with
  | nil => simp [modeAt] at h
  | cons c source ih =>
    by_cases hc : c = '\n'
    · subst hc
      exact ⟨[], source, rfl, List.not_mem_nil, h⟩
    · simp only [List.length_cons, modeAt, step, if_neg hc] at h
      obtain ⟨text, rest, rfl, htext, hrest⟩ := ih h
      exact ⟨c :: text, rest, rfl, by simp [htext, Ne.symm hc], hrest⟩

theorem exists_blockComment (h : modeAt .blockComment source source.length = .code) :
    ∃ text rest, source = text ++ ['*', '/'] ++ rest ∧ ¬['*', '/'] <:+: text ∧
      modeAt .code rest rest.length = .code := by
  induction source with
  | nil => simp [modeAt] at h
  | cons c source ih =>
    simp only [List.length_cons, modeAt, step_blockComment_eq] at h
    by_cases hc : c = '*' ∧ source.head? = some '/'
    · obtain ⟨rfl, hhead⟩ := hc
      obtain ⟨rest, rfl⟩ := List.head?_eq_some_iff.1 hhead
      exact ⟨[], rest, rfl, by simp, h⟩
    · rw [if_neg hc] at h
      obtain ⟨text, rest, rfl, htext, hrest⟩ := ih h
      exact ⟨c :: text, rest, rfl, (not_end_infix_cons htext rest).2 hc, hrest⟩

theorem exists_quoted {source : List Char}
    (h : modeAt (.quoted quote) source source.length = .code) :
    ∃ content rest, source = content ++ [quote] ++ rest ∧ Quotable quote content ∧
      modeAt .code rest rest.length = .code := by
  cases source with
  | nil => simp [modeAt] at h
  | cons c source =>
    simp only [List.length_cons, modeAt, step] at h
    by_cases hback : c = '\\'
    · subst hback
      rw [if_pos rfl] at h
      cases source with
      | nil => simp [modeAt] at h
      | cons d source =>
        obtain ⟨content, rest, rfl, hcontent, hrest⟩ := exists_quoted h
        exact ⟨'\\' :: d :: content, rest, rfl, .pair hcontent, hrest⟩
    · rw [if_neg hback] at h
      by_cases hquote : c = quote
      · subst hquote
        rw [if_pos rfl] at h
        exact ⟨[], source, rfl, .nil, h⟩
      · rw [if_neg hquote] at h
        obtain ⟨content, rest, rfl, hcontent, hrest⟩ := exists_quoted h
        exact ⟨c :: content, rest, rfl, .plain hquote hback hcontent, hrest⟩
termination_by source.length

theorem exists_rawClosing (h : modeAt .rawClosing ('"' :: source) (source.length + 1) = .code) :
    ∃ n rest, source = List.replicate n '"' ++ rest ∧ rest.head? ≠ some '"' ∧
      modeAt .code rest rest.length = .code := by
  induction source with
  | nil => exact ⟨0, [], rfl, by simp, rfl⟩
  | cons c source ih =>
    simp only [modeAt, step_rawClosing_eq] at h
    by_cases hc : c = '"'
    · subst hc
      obtain ⟨n, rest, rfl, hhead, hrest⟩ := ih h
      exact ⟨n + 1, rest, rfl, hhead, hrest⟩
    · rw [if_neg (by simpa using hc)] at h
      exact ⟨0, c :: source, rfl, by simpa using hc, h⟩

theorem exists_raw (h : modeAt .raw source source.length = .code) :
    ∃ content n rest, source = content ++ List.replicate (3 + n) '"' ++ rest ∧
      ¬['"', '"', '"'] <:+: content ∧ content.getLast? ≠ some '"' ∧ rest.head? ≠ some '"' ∧
      modeAt .code rest rest.length = .code := by
  induction source with
  | nil => simp [modeAt] at h
  | cons c source ih =>
    simp only [List.length_cons, modeAt, step_raw_eq] at h
    by_cases hc : c = '"' ∧ source.take 2 = ['"', '"']
    · obtain ⟨rfl, htake⟩ := hc
      obtain ⟨tail, rfl⟩ := take_two_eq_iff.1 htake
      have hclosing : modeAt .rawClosing ('"' :: tail) (tail.length + 1) = .code := h
      obtain ⟨n, rest, htail, hhead, hrest⟩ := exists_rawClosing hclosing
      exact ⟨[], n, rest, by simp [htail, Nat.add_comm 3, List.replicate_succ], by simp, by simp,
        hhead, hrest⟩
    · rw [if_neg hc] at h
      obtain ⟨content, n, rest, rfl, hcontent, hlast, hhead, hrest⟩ := ih h
      refine ⟨c :: content, n, rest, rfl, ?_, ?_, hhead, hrest⟩
      · rw [List.infix_cons_iff, not_or]
        refine ⟨?_, hcontent⟩
        rintro ⟨tail, htail⟩
        obtain ⟨rfl, rfl⟩ : '"' = c ∧ '"' :: '"' :: tail = content := by simpa using htail
        exact hc ⟨rfl, rfl⟩
      · cases content with
        | nil =>
          rintro hquote
          obtain rfl : c = '"' := by simpa using hquote
          exact hc ⟨rfl, by simp [Nat.add_comm 3, List.replicate_succ]⟩
        | cons d content => simpa using hlast

theorem exists_token {c : Char} (h : modeAt .code (c :: source) (source.length + 1) = .code) :
    ∃ (t : Token) (rest : List Char), c :: source = t.chars ++ rest ∧ t.EndsBefore rest ∧
      modeAt .code rest rest.length = .code := by
  simp only [modeAt, step_code_eq] at h
  by_cases hline : c = '/' ∧ source.head? = some '/'
  · obtain ⟨rfl, hhead⟩ := hline
    obtain ⟨source, rfl⟩ := List.head?_eq_some_iff.1 hhead
    have hinside : modeAt .lineComment source source.length = .code := h
    obtain ⟨text, rest, rfl, htext, hrest⟩ := exists_lineComment hinside
    exact ⟨.lineComment text htext, rest, rfl, trivial, hrest⟩
  by_cases hblock : c = '/' ∧ source.head? = some '*'
  · obtain ⟨rfl, hhead⟩ := hblock
    obtain ⟨source, rfl⟩ := List.head?_eq_some_iff.1 hhead
    have hinside : modeAt .blockComment source source.length = .code := h
    obtain ⟨text, rest, rfl, htext, hrest⟩ := exists_blockComment hinside
    exact ⟨.blockComment text htext, rest, rfl, trivial, hrest⟩
  by_cases hraw : c = '"' ∧ source.take 2 = ['"', '"']
  · obtain ⟨rfl, htake⟩ := hraw
    obtain ⟨source, rfl⟩ := take_two_eq_iff.1 htake
    have hinside : modeAt .raw source source.length = .code := h
    obtain ⟨content, n, rest, rfl, hcontent, hlast, hhead, hrest⟩ := exists_raw hinside
    exact ⟨.raw content n hcontent hlast, rest, rfl, hhead, hrest⟩
  rw [if_neg hline, if_neg hblock, if_neg hraw] at h
  by_cases hquote : c = '"' ∨ c = '\''
  · rw [if_pos hquote] at h
    obtain ⟨content, rest, rfl, hcontent, hrest⟩ := exists_quoted h
    refine ⟨.quoted c content hquote hcontent, rest, rfl, ?_, hrest⟩
    rintro rfl rfl hhead
    obtain ⟨tail, rfl⟩ := List.head?_eq_some_iff.1 hhead
    exact hraw ⟨rfl, rfl⟩
  · rw [if_neg hquote] at h
    exact ⟨.code c hquote, source, rfl, fun hc => ⟨fun hs => hline ⟨hc, hs⟩,
      fun hs => hblock ⟨hc, hs⟩⟩, h⟩

theorem Token.chars_ne_nil (t : Token) : t.chars ≠ [] := by cases t <;> simp [chars]

/-- A text that is read to code is a sequence of tokens. -/
theorem exists_tokens {source : List Char} (h : modeAt .code source source.length = .code) :
    ∃ ts, Tokens ts source := by
  cases source with
  | nil => exact ⟨[], .nil⟩
  | cons c source =>
    obtain ⟨t, rest, heq, hends, hrest⟩ := exists_token h
    have hlength : rest.length < (c :: source).length := by
      rw [heq, List.length_append]
      have := List.length_pos_iff.2 t.chars_ne_nil
      omega
    obtain ⟨ts, hts⟩ := exists_tokens hrest
    exact ⟨t :: ts, heq ▸ .cons hends hts⟩
termination_by source.length

end Endings

section Kept
variable {keep : Bool} {source : List Char} {ts : List Token}

theorem filterMap_zipIdx_region (keep : Bool) (r : Region) (cs : List Char) (offset : Nat) :
    (((cs.map (·, r)).zipIdx offset).filterMap fun ((c, r), i) =>
      if r.isKept keep then some (i, c) else none) =
      if r.isKept keep then (cs.zipIdx offset).map Prod.swap else [] := by
  induction cs generalizing offset with
  | nil => simp
  | cons c cs ih =>
    rw [List.map_cons, List.zipIdx_cons, List.filterMap_cons, ih]
    cases hr : r.isKept keep <;> simp [hr]

theorem filterMap_zipIdx_tokens (keep : Bool) (ts : List Token) (offset : Nat) :
    (((ts.flatMap fun t => t.chars.map (·, t.region)).zipIdx offset).filterMap fun ((c, r), i) =>
      if r.isKept keep then some (i, c) else none) = keptTokens keep offset ts := by
  induction ts generalizing offset with
  | nil => rfl
  | cons t ts ih =>
    rw [List.flatMap_cons, List.zipIdx_append, List.filterMap_append, filterMap_zipIdx_region,
      List.length_map, ih, keptTokens]

theorem mem_keptChars {c : Char} {i : Nat} :
    (i, c) ∈ keptChars keep source 0 ↔
      ∃ r, (marked source)[i]? = some (c, r) ∧ r.isKept keep = true := by
  simp only [keptChars, List.drop_zero, List.mem_filterMap, Prod.exists]
  constructor
  · rintro ⟨d, r, n, hmem, hkept⟩
    obtain ⟨hr, heq⟩ := Option.ite_none_right_eq_some.1 hkept
    obtain ⟨rfl, rfl⟩ := Prod.mk.inj (Option.some.inj heq)
    exact ⟨r, List.mem_zipIdx_iff_getElem?.1 hmem, hr⟩
  · rintro ⟨r, hmarked, hr⟩
    exact ⟨c, r, i, List.mem_zipIdx_iff_getElem?.2 hmarked, by simp [hr]⟩

theorem pairwise_keptChars (keep : Bool) (source : List Char) (start : Nat) :
    ((keptChars keep source start).map Prod.fst).Pairwise (· < ·) := by
  have hindices : ((marked (source.drop start)).zipIdx start).Pairwise fun m n => m.2 < n.2 := by
    rw [← List.pairwise_map (f := Prod.snd), List.zipIdx_map_snd]
    exact List.pairwise_lt_range'
  rw [List.pairwise_map, keptChars, List.pairwise_filterMap]
  refine hindices.imp fun {m n} hlt b hb b' hb' => ?_
  obtain ⟨-, hb⟩ := Option.ite_none_right_eq_some.1 hb
  obtain ⟨-, hb'⟩ := Option.ite_none_right_eq_some.1 hb'
  rwa [← Option.some.inj hb, ← Option.some.inj hb']

/-- The reader ends in code exactly on sequences of tokens. It keeps the characters of their code,
with those of their literals on request, each at its offset and in the order of the text. -/
theorem reader_accepts_tokens (source : List Char) :
    ((∃ ts, Tokens ts source) ↔ modeAt .code source source.length = .code) ∧
    ∀ ts, Tokens ts source → ∀ keep, keptChars keep source 0 = keptTokens keep 0 ts ∧
      ((keptChars keep source 0).map Prod.fst).Pairwise (· < ·) := by
  refine ⟨⟨fun ⟨ts, h⟩ => modeAt_tokens h, exists_tokens⟩, fun ts h keep => ⟨?_, ?_⟩⟩
  · rw [keptChars, List.drop_zero, marked_tokens h, filterMap_zipIdx_tokens]
  · exact pairwise_keptChars keep source 0

def mixedText : List Char := "a\"b\\\"\"/**\"*/'\\''\"\"\"\"/*\"\"\"\"//\"\n/".toList

def mixedTokens : List Token :=
  [.code 'a' (by simp [IsQuote]),
    .quoted '"' ['b', '\\', '"'] (.inl rfl) (.plain (by decide) (by decide) (.pair .nil)),
    .blockComment ['*', '"'] (by decide),
    .quoted '\'' ['\\', '\''] (.inr rfl) (.pair .nil),
    .raw ['"', '/', '*'] 1 (by decide) (by decide),
    .lineComment ['"'] (by decide),
    .code '/' (by simp [IsQuote])]

theorem reader_accepts_mixedTokens :
    Tokens mixedTokens mixedText ∧ keptChars false mixedText 0 = [(0, 'a'), (30, '/')] := by
  have htext : mixedText = mixedTokens.flatMap Token.chars := by decide
  have h : Tokens mixedTokens mixedText := by
    rw [htext]
    exact .cons (by simp [Token.EndsBefore]) <| .cons (by simp [Token.EndsBefore]) <|
      .cons trivial <| .cons (by simp [Token.EndsBefore]) <|
      .cons (by simp [Token.EndsBefore, Token.chars]) <| .cons trivial <|
      .cons (by simp [Token.EndsBefore]) .nil
  exact ⟨h, ((reader_accepts_tokens _).2 _ h false).1.trans (by decide)⟩

end Kept

end KotlinSchema.Source
