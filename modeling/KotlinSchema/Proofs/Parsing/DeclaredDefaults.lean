import KotlinSchema.Proofs.Canonical.Members
import KotlinSchema.Proofs.Parsing.Defaults
import KotlinSchema.Proofs.Parsing.NestedBlocks
import KotlinSchema.Proofs.Source.NestedBrackets
import KotlinSchema.Proofs.Text.Trimming

/-! The default that a property declares. It is read from the member text, in which nested blocks
have been blanked; so it is the text of the delegate's arguments but for what the blocks in them
hold. -/

namespace KotlinSchema
open Text Source

namespace Source

/-- The text of a type argument. It is over in code, and without its comments its angle brackets
match. -/
structure IsTypeText (type : List Char) : Prop where
  endsInCode : modeAt .code type type.length = .code
  isBalanced : IsBalanced (mask true type)

/-- The text of arguments. It is over in code, and its braces match, as do the parentheses outside of
its blocks. -/
structure IsArgumentText (args : List Char) : Prop where
  endsInCode : modeAt .code args args.length = .code
  openBraces : ∀ n, 0 ≤ balance '{' '}' ((marked args).take n)
  closedBraces : balance '{' '}' (marked args) = 0
  openParens : ∀ n, 0 ≤ parenDepth args n
  closedParens : parenDepth args args.length = 0

theorem IsArgumentText.of_isNested {args : List Char}
    (hcode : modeAt .code args args.length = .code) (h : IsNested (marked args)) :
    IsArgumentText args where
  endsInCode := hcode
  openBraces := (isCount_braces.of_isNested h 0).1
  closedBraces := (isCount_braces.of_isNested h 0).2
  openParens := (isCount_parens.of_isNested h 0).1
  closedParens := by
    have hcount := (isCount_parens.of_isNested h 0).2
    rwa [parenDepth, List.take_of_length_le (by simp)]

/-- The value in a text of arguments, with no blanks around it: what is given to the parameter, or
all of the text if it does not name the parameter. -/
def IsValueOf (args value : List Char) : Prop :=
  (∃ left right, (∀ c ∈ left, isBlank c = true) ∧ (∀ c ∈ right, isBlank c = true) ∧
      (∀ c ∈ value.head?, isBlank c = false) ∧
      trim args = "default".toList ++ (left ++ '=' :: (right ++ value))) ∨
    (trim args = value ∧ ∀ left rest, (∀ c ∈ left, isBlank c = true) →
      value ≠ "default".toList ++ (left ++ '=' :: rest))

section Values
variable {args value : List Char}

theorem trim_eq_nil_iff : trim args = [] ↔ ∀ c ∈ args, isBlank c = true := by
  constructor
  · intro h
    obtain ⟨-, -, left, right, hleft, hright, rfl⟩ := trim_eq_iff.1 h
    exact List.forall_mem_append.2 ⟨hleft, hright⟩
  · intro h
    exact trim_eq_iff.2 ⟨by simp, by simp, args, [], h, by simp, by simp⟩

theorem defaultText?_eq_none_iff : defaultText? args = none ↔ ∀ c ∈ args, isBlank c = true := by
  rw [← trim_eq_nil_iff, defaultText?]
  split
  · simp_all
  · simp_all

theorem isValueOf_of_defaultText? (h : defaultText? args = some value) : IsValueOf args value := by
  rw [defaultText?] at h
  split at h
  · simp at h
  · simp only [Option.some.injEq] at h
    cases hname : after? "default".toList (trim args) with
    | none =>
      have hvalue : trim args = value := by rwa [hname] at h
      refine .inr ⟨hvalue, fun left rest _ hspelled => ?_⟩
      rw [hvalue, hspelled, after?_append] at hname
      exact absurd hname (by simp)
    | some more =>
      have htrim := after?_eq_some hname
      rw [hname, Option.bind_eq_bind, Option.bind_some] at h
      obtain ⟨left, hleft, hmore⟩ := exists_blanks more
      cases hsign : after? ['='] (skipBlanks more) with
      | none =>
        have hvalue : trim args = value := by rwa [hsign] at h
        refine .inr ⟨hvalue, fun left rest hleft hspelled => ?_⟩
        have hrest : more = left ++ '=' :: rest := by
          rw [← hvalue, htrim] at hspelled
          exact List.append_cancel_left hspelled
        rw [hrest, skipBlanks_append hleft, skipBlanks_cons rfl] at hsign
        exact absurd (hsign.symm.trans (after?_append ['='] rest)) (by simp)
      | some rest =>
        have hvalue : skipBlanks rest = value := by rwa [hsign] at h
        obtain ⟨right, hright, hrest⟩ := exists_blanks rest
        refine .inl ⟨left, right, hleft, hright, hvalue ▸ not_isBlank_skipBlanks rest, ?_⟩
        rw [htrim, hmore, after?_eq_some hsign, ← hvalue, ← hrest]
        rfl

theorem IsValueOf.suffix (h : IsValueOf args value) : value <:+ trim args := by
  rcases h with ⟨left, right, -, -, -, htrim⟩ | ⟨htrim, -⟩
  · exact ⟨"default".toList ++ (left ++ '=' :: right), by simp [htrim]⟩
  · exact htrim ▸ List.suffix_refl _

end Values

section Blanking
variable {depth n : Nat} {ms ns : List Marked} {body text : List Char} {c : Char}

theorem openBlocks_of_ne_brace (h : ∀ m ∈ ms, m ≠ ('{', .code) ∧ m ≠ ('}', .code)) (depth : Nat) :
    openBlocks depth ms = depth := by
  induction ms with
  | nil => rfl
  | cons m ms ih =>
    obtain ⟨hopen, hclose⟩ := h m List.mem_cons_self
    rw [openBlocks, if_neg hopen, if_neg hclose, ih fun m hm => h m (List.mem_cons_of_mem _ hm)]

theorem shows_parens (h : openBlocks 0 ms = 0) :
    blankNested 0 (('(', .code) :: (ms ++ (')', .code) :: ns)) =
        '(' :: (blankNested 0 ms ++ ')' :: blankNested 0 ns) ∧
      veiled 0 (('(', .code) :: (ms ++ (')', .code) :: ns)) =
        ('(', .code) :: (veiled 0 ms ++ (')', .code) :: veiled 0 ns) := by
  have hparens : openBlocks 0 [('(', .code)] = 0 ∧ openBlocks 0 [(')', .code)] = 0 := ⟨rfl, rfl⟩
  rw [blankNested_cons, hparens.1, blankNested_append, h, blankNested_cons, hparens.2, veiled,
    hparens.1, veiled_append, h, veiled, hparens.2]
  exact ⟨rfl, rfl⟩

theorem memberText_drop (h : memberText body = .ok text) (hcode : (marked body)[n]? = some (c, .code))
    (hdepth : blockDepth body n = 0) :
    text.drop n = blankNested 0 ((marked (body.drop n)).map (remark true)) ∧
      marked (text.drop n) = veiled 0 ((marked (body.drop n)).map (remark true)) := by
  have hopen : openBlocks 0 (((marked body).map (remark true)).take n) = 0 := by
    rw [← List.map_take, openBlocks_remark]
    exact hdepth
  have hmarked : (marked text)[n]? = some (c, .code) := by
    rw [getElem?_marked_memberText h hdepth, hcode]
    rfl
  rw [marked_drop hmarked, marked_memberText h, drop_veiled, hopen, eq_of_memberText h,
    drop_blankNested, hopen, marked_drop hcode, List.map_drop]
  exact ⟨rfl, rfl⟩

end Blanking

section Arguments
variable {args : List Char}

theorem beginsWithArguments (h : IsArgumentText args) {text more : List Char} {ns : List Marked}
    (htext : text = '(' :: (blankNested 0 ((marked args).map (remark true)) ++ ')' :: more))
    (hmarked : marked text =
      ('(', .code) :: (veiled 0 ((marked args).map (remark true)) ++ (')', .code) :: ns)) :
    BeginsWithArguments text (blankNested 0 ((marked args).map (remark true))) := by
  have hlength : (veiled 0 ((marked args).map (remark true))).length = args.length := by
    rw [length_veiled, List.length_map, length_marked]
  have hlength' : (blankNested 0 ((marked args).map (remark true))).length = args.length := by simp
  have hdepth : ∀ n ≤ args.length, balance '(' ')' ((marked text).take (n + 1)) =
      1 + parenDepth args n := by
    intro n hn
    rw [hmarked, List.take_succ_cons, balance_cons, List.take_append_of_le_length (by omega),
      take_veiled, balance_veiled, ← List.map_take, outside_remark, balance_remark, parenDepth]
    rfl
  have hclosing : (marked text)[args.length + 1]? = some (')', .code) := by
    rw [hmarked, List.getElem?_cons_succ, List.getElem?_append_right hlength.le, hlength,
      Nat.sub_self, List.getElem?_cons_zero]
  refine ⟨more, htext, ?_, ?_⟩
  · rw [hlength', ClosesAt]
    refine ⟨hclosing, ?_⟩
    have hlast := hdepth args.length (Nat.le_refl _)
    rw [h.closedParens] at hlast
    rw [List.take_add_one, hclosing, balance_append, hlast]
    rfl
  · rw [hlength']
    rintro j hj ⟨-, hzero⟩
    have hopen := h.openParens j
    rw [hdepth j (Nat.le_of_lt_succ hj)] at hzero
    omega

end Arguments

def declarationHead (name : List Char) : List Char :=
  "val ".toList ++ name ++ " by value<".toList

def declaration (name type args : List Char) : List Char :=
  declarationHead name ++ (type ++ '>' :: '(' :: (args ++ [')']))

section Declarations
variable {name type args after body text : List Char} {n : Nat}

theorem declarationHead_append (name rest : List Char) : declarationHead name ++ rest =
    "val".toList ++ ' ' :: (name ++ ' ' :: Canonical.delegateAt rest) :=
  Canonical.words_of_line name rest

theorem declaration_append (name type args after : List Char) : declaration name type args ++ after =
    declarationHead name ++ (type ++ '>' :: '(' :: (args ++ ')' :: after)) := by
  simp only [declaration, List.append_assoc, List.cons_append, List.nil_append]

theorem isInert_declarationHead (hname : ∀ c ∈ name, isWord c = true) :
    ∀ c ∈ declarationHead name, Canonical.isInert c = true :=
  Canonical.inert_append (Canonical.inert_append (Canonical.inert_of_all rfl)
    fun c hc => Canonical.isInert_of_isWord (hname c hc)) (Canonical.inert_of_all rfl)

def headMarks (name type : List Char) : List Marked :=
  (declarationHead name).map (·, .code) ++ (marked type ++ [('>', .code)])

theorem IsArgumentText.openBlocks_eq (h : IsArgumentText args) : openBlocks 0 (marked args) = 0 := by
  have hnonneg : ∀ n, 0 ≤ ((0 : Nat) : Int) + balance '{' '}' ((marked args).take n) := by
    intro n
    have hn := h.openBraces n
    omega
  have hdepth := openBlocks_eq_balance hnonneg
  rw [h.closedBraces] at hdepth
  exact_mod_cast hdepth

theorem marked_declaration (hname : ∀ c ∈ name, isWord c = true) (htype : IsTypeText type)
    (hargs : IsArgumentText args) (after : List Char) :
    marked (declaration name type args ++ after) = headMarks name type ++
      ('(', .code) :: (marked args ++ (')', .code) :: marked after) := by
  have hparen : ∀ rest, marked ('(' :: rest) = ('(', .code) :: marked rest := by
    intro rest
    simp [marked, step_code_eq]
  have hclosing := marked_append_cons (c := ')') (by decide) (by decide) (by simp [IsQuote])
    hargs.endsInCode after
  have hangle := marked_append_cons (c := '>') (by decide) (by decide) (by simp [IsQuote])
    htype.endsInCode ('(' :: (args ++ ')' :: after))
  rw [declaration_append, marked,
    Canonical.mark_of_isPlain (Canonical.plain_of_inert (isInert_declarationHead hname)), ← marked,
    hangle, hparen, hclosing, headMarks]
  simp only [List.append_assoc, List.cons_append, List.nil_append]

theorem ne_brace_headMarks (hname : ∀ c ∈ name, isWord c = true) (htype : IsTypeText type) :
    ∀ m ∈ headMarks name type, m ≠ ('{', .code) ∧ m ≠ ('}', .code) := by
  have hshown : ∀ c, c ∈ "{};=".toList → (c, Region.code) ∉ marked type := by
    intro c hc hmem
    refine htype.isBalanced.isPlain c ?_ hc
    rw [mask, List.mem_map]
    exact ⟨(c, .code), hmem, shown_of_kept rfl⟩
  intro m hm
  rcases List.mem_append.1 hm with hm | hm
  · obtain ⟨c, hc, rfl⟩ := List.mem_map.1 hm
    have hinert := Canonical.isInert_iff.1 (isInert_declarationHead hname c hc)
    simp [hinert.2.1, hinert.2.2.1]
  · rcases List.mem_append.1 hm with hm | hm
    · constructor <;> rintro rfl
      · exact hshown '{' (by simp) hm
      · exact hshown '}' (by simp) hm
    · obtain rfl := List.mem_singleton.1 hm
      decide

theorem blankNested_headMarks (hname : ∀ c ∈ name, isWord c = true) (htype : IsTypeText type) :
    blankNested 0 ((headMarks name type).map (remark true)) =
      declarationHead name ++ (mask true type ++ ['>']) := by
  have hbraces : ∀ m ∈ (headMarks name type).map (remark true),
      m ≠ ('{', .code) ∧ m ≠ ('}', .code) := by
    intro m hm
    obtain ⟨m', hm', rfl⟩ := List.mem_map.1 hm
    have hne := ne_brace_headMarks hname htype m' hm'
    rwa [Ne, Ne, remark_eq_code_iff (by decide) (by decide),
      remark_eq_code_iff (by decide) (by decide)]
  have hshown : ∀ m, (remark true m).1 = shown true m := fun _ => rfl
  rw [Canonical.blankNested_eq_map hbraces, List.map_map]
  simp only [headMarks, Function.comp_def, hshown, List.map_append]
  rw [show (fun m => shown true m) = shown true from rfl, Canonical.map_shown_code, mask]
  rfl

/-- Where a property is read, its front shows all but its comments, and its arguments are what they
show of themselves. -/
theorem memberText_declaration (hname : ∀ c ∈ name, isWord c = true) (htype : IsTypeText type)
    (hargs : IsArgumentText args) (h : memberText body = .ok text)
    (hbody : body.drop n = declaration name type args ++ after)
    (hcode : (marked body)[n]? = some ('v', .code)) (hdepth : blockDepth body n = 0) :
    ∃ call, text.drop n = declarationHead name ++ (mask true type ++ '>' :: call) ∧
      BeginsWithArguments call (blankNested 0 ((marked args).map (remark true))) := by
  let k := (headMarks name type).length
  have hmarked := marked_declaration hname htype hargs after
  have hdrop : (marked body).drop n = headMarks name type ++
      ('(', .code) :: (marked args ++ (')', .code) :: marked after) := by
    rw [← marked_drop hcode, hbody, hmarked]
  have hparen : (marked body)[n + k]? = some ('(', .code) := by
    rw [← List.getElem?_drop, hdrop, List.getElem?_append_right (Nat.le_refl _), Nat.sub_self,
      List.getElem?_cons_zero]
  have hopen : openBlocks 0 (headMarks name type) = 0 :=
    openBlocks_of_ne_brace (ne_brace_headMarks hname htype) 0
  have hdepth' : blockDepth body (n + k) = 0 := by
    rw [blockDepth_add, hdepth, hdrop, List.take_left, hopen]
  have hrest : marked (body.drop (n + k)) =
      ('(', .code) :: (marked args ++ (')', .code) :: marked after) := by
    rw [marked_drop hparen, ← List.drop_drop, hdrop, List.drop_left]
  obtain ⟨hfront, -⟩ := memberText_drop h hcode hdepth
  obtain ⟨hcall, hcallMarks⟩ := memberText_drop h hparen hdepth'
  refine ⟨text.drop (n + k), ?_, ?_⟩
  · rw [hfront, hcall, hbody, hmarked, hrest, List.map_append, blankNested_append,
      blankNested_headMarks hname htype, openBlocks_remark, hopen]
    simp only [List.append_assoc, List.cons_append, List.nil_append]
  · have hclosed : openBlocks 0 ((marked args).map (remark true)) = 0 := by
      rw [openBlocks_remark, hargs.openBlocks_eq]
    rw [hrest, List.map_cons, List.map_append, List.map_cons] at hcall hcallMarks
    exact beginsWithArguments hargs (hcall.trans (shows_parens hclosed).1)
      (hcallMarks.trans (shows_parens hclosed).2)

end Declarations

section Reading
variable {name rest cs more : List Char} {before : Option Char} {p : PropertyText}

theorem delegation_of_read (hname : name ≠ [] ∧ ∀ c ∈ name, isWord c = true)
    (hread : propertyText? before cs = some (p, more))
    (hat : p.keywordAt = declarationHead name ++ rest) :
    p.delegation = Canonical.delegation rest := by
  rw [declarationHead_append] at hat
  simp only [propertyText?] at hread
  split at hread
  · simp only [Option.bind_eq_bind, Option.bind_eq_some_iff] at hread
    obtain ⟨nameAt, hkeyword, ⟨name', afterName⟩, hname', hread⟩ := hread
    have hplace : p.keywordAt = (optionalKeyword ["override"] (annotationRun cs).2).2 := by
      split at hread
      · obtain ⟨⟨type, d⟩, -, hread⟩ := Option.bind_eq_some_iff.1 hread
        obtain ⟨rfl, -⟩ := Prod.mk.inj (Option.some.inj hread)
        rfl
      · obtain ⟨d, -, hread⟩ := Option.bind_eq_some_iff.1 hread
        obtain ⟨rfl, -⟩ := Prod.mk.inj (Option.some.inj hread)
        rfl
    have hval : keyword? "val" (optionalKeyword ["override"] (annotationRun cs).2).2 =
        some (name ++ ' ' :: Canonical.delegateAt rest) := by
      rw [← hplace, hat]
      refine Canonical.keyword?_append fun c hc => not_isBlank_of_isWord (hname.2 c ?_)
      rw [List.head?_append_of_ne_nil _ hname.1] at hc
      exact List.mem_of_mem_head? hc
    rw [hval, Option.some_or, Option.some.injEq] at hkeyword
    subst hkeyword
    have hword : takeWord1? (name ++ ' ' :: Canonical.delegateAt rest) =
        some (name, ' ' :: Canonical.delegateAt rest) := by
      refine takeWord1?_of_append hname.1 hname.2 ?_
      rintro c ⟨⟩
      rfl
    obtain ⟨rfl, rfl⟩ := Prod.mk.inj (Option.some.inj (hword.symm.trans hname'))
    split at hread
    · rename_i typeAt hcolon
      have hby := Canonical.head?_delegateAt rest
      rw [← Canonical.skipBlanks_delegateAt, hcolon] at hby
      exact absurd hby (by simp)
    · obtain ⟨d, hd, hread⟩ := Option.bind_eq_some_iff.1 hread
      obtain ⟨rfl, -⟩ := Prod.mk.inj (Option.some.inj hread)
      rw [Canonical.delegation?_value] at hd
      exact (Option.some.inj hd).symm
  · simp at hread

end Reading

section Shown
variable {args shown : List Char} {start stop n : Nat}

theorem isBlank_blankNested_iff (ms : List Marked) :
    (∀ c ∈ blankNested 0 ms, isBlank c = true) ↔ ∀ m ∈ ms, isBlank m.1 = true := by
  induction ms with
  | nil => simp [blankNested]
  | cons m ms ih =>
    rw [blankNested_cons, if_pos rfl, List.forall_mem_cons, List.forall_mem_cons]
    refine and_congr_right fun hblank => ?_
    have hzero : openBlocks 0 [m] = 0 := by
      by_contra hopen
      rw [eq_brace_of_openBlocks hopen] at hblank
      exact absurd hblank (by decide)
    rw [hzero, ih]

theorem IsArgumentText.memberText_eq (h : IsArgumentText args) :
    memberText args = .ok (blankNested 0 ((marked args).map (remark true))) := by
  obtain ⟨shown, hshown⟩ := (exists_memberText_iff args).2 h.openBlocks_eq
  rw [hshown, eq_of_memberText hshown]

theorem isBlank_memberText_iff (h : memberText args = .ok shown) :
    (∀ c ∈ shown, isBlank c = true) ↔ ∀ c ∈ mask true args, isBlank c = true := by
  rw [eq_of_memberText h, isBlank_blankNested_iff, mask, List.forall_mem_map, List.forall_mem_map]
  exact Iff.rfl

theorem getElem?_of_memberText (h : memberText args = .ok shown)
    (hout : ∀ start stop, IsBlock args start stop → ¬(start < n ∧ n < stop)) :
    shown[n]? = (mask true args)[n]? :=
  getElem?_of_maskNested h fun start stop hblock => hout start stop (isBlock_mask_iff.1 hblock)

theorem blank_of_memberText (h : memberText args = .ok shown) (hblock : IsBlock args start stop)
    (hlow : start < n) (hhigh : n < stop) : shown[n]? = some ' ' ∨ shown[n]? = some '\n' :=
  blank_of_maskNested h (isBlock_mask_iff.2 hblock) hlow hhigh

theorem memberText_of_no_block (h : memberText args = .ok shown)
    (hbrace : ('{', .code) ∉ marked args) : shown = mask true args := by
  refine List.ext_getElem? fun n => getElem?_of_memberText h fun start stop hblock => ?_
  exact absurd (List.mem_of_getElem? hblock.brace) hbrace

end Shown

end Source

/-- A property that is recorded of a body is read from the declaration whose keyword stands at an
offset. -/
def IsRecordedAt (body : List Char) (offset : Nat) (q : Property) : Prop :=
  ∃ qs text p, parseProperties body = .ok qs ∧ q ∈ qs ∧ memberText body = .ok text ∧
    p ∈ findAll propertyText? text ∧ offsetOf text p.keywordAt = offset ∧ q = propertyOf p

section Recorded
variable {before name type args after body : List Char} {n : Nat} {q : Property}

theorem defaultText_of_isRecordedAt (hname : name ≠ [] ∧ ∀ c ∈ name, isWord c = true)
    (htype : IsTypeText type) (hargs : IsArgumentText args)
    (hbody : body.drop n = declaration name type args ++ after)
    (hcode : (marked body)[n]? = some ('v', .code)) (hrecorded : IsRecordedAt body n q) :
    ∃ shown, memberText args = .ok shown ∧ q.defaultText = (defaultText? shown).map String.ofList := by
  obtain ⟨qs, text, p, -, -, htext, hp, hoffset, rfl⟩ := hrecorded
  obtain ⟨_, place, rest, hplace, hread⟩ := mem_findFrom hp
  obtain ⟨hsuffix, ⟨keyword, hspelled⟩, -⟩ := spelled_of_propertyText? hread
  have hkeywordAt : p.keywordAt <:+ text := hsuffix.trans hplace
  have hat : p.keywordAt = text.drop n := by
    obtain ⟨start, rfl⟩ := hkeywordAt
    rw [offsetOf_append] at hoffset
    rw [← hoffset, List.drop_left]
  -- The keyword is shown, so it stands outside of blocks.
  have hdepth : blockDepth body n = 0 := by
    obtain ⟨gap, -, hkeyword⟩ := hspelled.keyword
    have hv : text[n]? = some 'v' := by
      rw [← hoffset, getElem?_offsetOf hkeywordAt, hkeyword]
      rcases hspelled.isKeyword with rfl | rfl <;> rfl
    obtain ⟨r, -, -, hopen⟩ := marked_of_memberText htext hv (not_isBlanked_of_isWord (by decide))
    exact hopen
  obtain ⟨call, hdrop, hcall⟩ :=
    memberText_declaration hname.2 htype hargs htext hbody hcode hdepth
  have hdelegation := delegation_of_read hname hread (hat.trans hdrop)
  have hcallAt : p.typeAndCall.2 = call := by
    rw [PropertyText.typeAndCall, hdelegation, Canonical.delegation, Option.bind_some,
      typeArgument?_of_passed (passed_of_isBalanced htype.isBalanced)]
  refine ⟨_, hargs.memberText_eq, ?_⟩
  have harguments := arguments?_of_begins (fun c (hc : c ∈ []) => absurd hc List.not_mem_nil) hcall
  rw [List.nil_append] at harguments
  simp only [propertyOf, hcallAt, harguments, Option.bind_some]

/-- The default of a property is read from its arguments without comments. It is missing if these
are blank, and is their value else, in which nothing has been changed but what is inside of
blocks. -/
theorem defaultText_of_declaration (hname : name ≠ [] ∧ ∀ c ∈ name, isWord c = true)
    (htype : IsTypeText type) (hargs : IsArgumentText args)
    (hcode : (marked (before ++ (declaration name type args ++ after)))[before.length]? =
      some ('v', .code))
    (hrecorded : IsRecordedAt (before ++ (declaration name type args ++ after)) before.length q) :
    (q.defaultText = none ↔ ∀ c ∈ mask true args, isBlank c = true) ∧
    ∃ shown, shown.length = args.length ∧
      (∀ n : Nat, (∀ start stop, IsBlock args start stop → ¬(start < n ∧ n < stop)) →
        shown[n]? = (mask true args)[n]?) ∧
      (∀ n start stop, IsBlock args start stop → start < n → n < stop →
        shown[n]? = some ' ' ∨ shown[n]? = some '\n') ∧
      (('{', .code) ∉ marked args → shown = mask true args) ∧
      ∀ value, q.defaultText = some value → IsValueOf shown value.toList := by
  obtain ⟨shown, hshown, hdefault⟩ := defaultText_of_isRecordedAt hname htype hargs
    (List.drop_left ..) hcode hrecorded
  rw [hdefault]
  have hlength : shown.length = args.length := by
    rw [length_maskNested hshown, length_mask]
  refine ⟨?_, shown, hlength, fun n => getElem?_of_memberText hshown,
    fun n start stop => blank_of_memberText hshown, memberText_of_no_block hshown,
    fun value hvalue => ?_⟩
  · rw [Option.map_eq_none_iff, defaultText?_eq_none_iff, isBlank_memberText_iff hshown]
  · obtain ⟨chars, hchars, rfl⟩ := Option.map_eq_some_iff.1 hvalue
    rw [String.toList_ofList]
    exact isValueOf_of_defaultText? hchars

def blockArgs : List Char := "default = \x7b f(1) \x7d".toList

def blockBody : List Char :=
  "\n  ".toList ++ (declaration "a".toList "F".toList blockArgs ++ "\n".toList)

def blockProperty : Property where
  name := "a"
  typeName := "F"
  defaultText := some "\x7b      \x7d"

theorem isNested_blockArgs : IsNested (marked blockArgs) := by
  have hone : IsNested ("1".toList.map (·, .code) ++ []) := .plain_append (by simp) .nil
  have hspace : IsNested (" ".toList.map (·, .code) ++ []) := .plain_append (by simp) .nil
  have hcall : IsNested (" f".toList.map (·, .code) ++ _) :=
    .plain_append (by simp) (.parens hone hspace)
  have hblock : IsNested ("default = ".toList.map (·, .code) ++ _) :=
    .plain_append (by simp) (.block hcall .nil)
  convert hblock using 1
  decide +kernel

theorem isArgumentText_blockArgs : IsArgumentText blockArgs := by
  have hlength : blockArgs.length = 18 := by decide +kernel
  have hcode : modeAt .code blockArgs 18 = .code := by decide +kernel
  exact .of_isNested (hlength ▸ hcode) isNested_blockArgs

theorem isTypeText_F : IsTypeText "F".toList where
  endsInCode := by decide +kernel
  isBalanced := by
    have hmask : mask true "F".toList = ['F'] := by decide +kernel
    rw [hmask]
    refine ⟨fun n => ?_, by decide, by simp⟩
    cases n with
    | zero => decide
    | succ n =>
      rw [List.take_of_length_le (by simp)]
      decide

theorem parseProperties_blockBody : parseProperties blockBody = .ok [blockProperty] := by
  decide +kernel

theorem isRecordedAt_blockBody : IsRecordedAt blockBody "\n  ".toList.length blockProperty := by
  have htext : memberText blockBody =
      .ok "\n  val a by value<F>(default = \x7b      \x7d)\n".toList := by decide +kernel
  have hread : ∃ p ∈ findAll propertyText? "\n  val a by value<F>(default = \x7b      \x7d)\n".toList,
      offsetOf "\n  val a by value<F>(default = \x7b      \x7d)\n".toList p.keywordAt =
        "\n  ".toList.length ∧ blockProperty = propertyOf p := by
    decide +kernel
  obtain ⟨p, hp, hoffset, hproperty⟩ := hread
  exact ⟨_, _, p, parseProperties_blockBody, List.mem_cons_self, htext, hp, hoffset, hproperty⟩

theorem defaultText_of_declaration_blockBody :
    ∃ q, IsRecordedAt blockBody "\n  ".toList.length q ∧ q.defaultText = some "\x7b      \x7d" ∧
      ∃ shown : List Char, shown[10]? = some '{' ∧ IsValueOf shown "\x7b      \x7d".toList := by
  have hcode : (marked blockBody)["\n  ".toList.length]? = some ('v', .code) := by decide +kernel
  obtain ⟨-, shown, -, hsame, -, -, hvalue⟩ :=
    defaultText_of_declaration ⟨by simp, List.all_eq_true.1 rfl⟩ isTypeText_F isArgumentText_blockArgs
      hcode isRecordedAt_blockBody
  have hbefore : ∀ start < 10, (marked blockArgs)[start]? ≠ some ('{', .code) := by decide +kernel
  have hbrace : (mask true blockArgs)[10]? = some '{' := by decide +kernel
  refine ⟨_, isRecordedAt_blockBody, rfl, shown, ?_, hvalue _ rfl⟩
  rw [hsame 10 fun start stop hblock hin => hbefore start hin.1 hblock.brace, hbrace]

/-- What a block holds is missing in the default, though it is no comment. -/
theorem defaultText_blockBody :
    ∃ q, parseProperties blockBody = .ok [q] ∧ IsRecordedAt blockBody "\n  ".toList.length q ∧
      IsNested (marked blockArgs) ∧
      ∃ value ∈ q.defaultText, ¬IsValueOf (mask true blockArgs) value.toList := by
  refine ⟨_, parseProperties_blockBody, isRecordedAt_blockBody, isNested_blockArgs, _, rfl,
    fun h => ?_⟩
  exact absurd h.suffix (by decide +kernel)

end Recorded

end KotlinSchema
