import KotlinSchema.Json.Printer
import KotlinSchema.Proofs.Source.Tokens

/-! What the text of a document is put together from: strings, and between them brackets,
separators, words, numbers, blanks and line ends. However the characters of a string are escaped,
its closing quote is the first one that ends it, and no control character is left in it. So the
control characters of a document are the line ends of its layout. -/

namespace KotlinSchema.Json
open Text Source

def isControl (c : Char) : Bool := c.toNat < 0x20

section Strings
variable {content : List Char} {c d : Char}

theorem exists_of_mem_hex {width n : Nat} {d : Char} (h : d ∈ hex width n) :
    ∃ k < 16, d = Nat.digitChar k := by
  induction width generalizing n with
  | zero => simp [hex] at h
  | succ width ih =>
    rw [hex, List.mem_append, List.mem_singleton] at h
    rcases h with h | rfl
    · exact ih h
    · exact ⟨n % 16, Nat.mod_lt n (by decide), rfl⟩

theorem not_special_of_mem_hex {width n : Nat} {d : Char} (h : d ∈ hex width n) :
    d ≠ '"' ∧ d ≠ '\\' ∧ isControl d = false := by
  have hdigits : ∀ k < 16, Nat.digitChar k ≠ '"' ∧ Nat.digitChar k ≠ '\\' ∧
      isControl (Nat.digitChar k) = false := by decide
  obtain ⟨k, hk, rfl⟩ := exists_of_mem_hex h
  exact hdigits k hk

theorem escapeChar_cases (c : Char) :
    (escapeChar c = [c] ∧ c ≠ '"' ∧ c ≠ '\\' ∧ isControl c = false) ∨
    ∃ d digits, escapeChar c = '\\' :: d :: digits ∧ isControl d = false ∧
      ∀ e ∈ digits, e ≠ '"' ∧ e ≠ '\\' ∧ isControl e = false := by
  unfold escapeChar
  split_ifs with hquote hback hline hreturn htab h8 h12 hcontrol
  · exact .inr ⟨'"', [], rfl, by decide, by simp⟩
  · exact .inr ⟨'\\', [], rfl, by decide, by simp⟩
  · exact .inr ⟨'n', [], rfl, by decide, by simp⟩
  · exact .inr ⟨'r', [], rfl, by decide, by simp⟩
  · exact .inr ⟨'t', [], rfl, by decide, by simp⟩
  · exact .inr ⟨'b', [], rfl, by decide, by simp⟩
  · exact .inr ⟨'f', [], rfl, by decide, by simp⟩
  · exact .inr ⟨'u', hex 4 c.toNat, rfl, by decide, fun e => not_special_of_mem_hex⟩
  · exact .inl ⟨rfl, hquote, hback, decide_eq_false hcontrol⟩

theorem isControl_of_mem_escapeChar (h : d ∈ escapeChar c) : isControl d = false := by
  rcases escapeChar_cases c with ⟨hself, -, -, hc⟩ | ⟨e, digits, hpair, he, hdigits⟩
  · rw [hself, List.mem_singleton] at h
    rwa [h]
  · rw [hpair, List.mem_cons, List.mem_cons] at h
    rcases h with rfl | rfl | h
    · decide
    · exact he
    · exact (hdigits d h).2.2

theorem isControl_of_mem_stringText {s : String} (h : d ∈ stringText s) :
    isControl d = false := by
  simp only [stringText, List.cons_append, List.mem_cons, List.mem_append, List.mem_flatMap,
    List.not_mem_nil, or_false] at h
  rcases h with rfl | ⟨c, -, h⟩ | rfl
  · decide
  · exact isControl_of_mem_escapeChar h
  · decide

theorem quotable_append_of_plain {a : List Char} (ha : ∀ c ∈ a, c ≠ '"' ∧ c ≠ '\\')
    (h : Quotable '"' content) : Quotable '"' (a ++ content) := by
  induction a with
  | nil => exact h
  | cons c a ih =>
    obtain ⟨hquote, hback⟩ := ha c List.mem_cons_self
    exact .plain hquote hback (ih fun d hd => ha d (List.mem_cons_of_mem c hd))

theorem quotable_escapeChar (c : Char) (h : Quotable '"' content) :
    Quotable '"' (escapeChar c ++ content) := by
  rcases escapeChar_cases c with ⟨hself, hquote, hback, -⟩ | ⟨d, digits, hpair, -, hdigits⟩
  · rw [hself]
    exact .plain hquote hback h
  · rw [hpair]
    exact .pair (quotable_append_of_plain (fun e he => ⟨(hdigits e he).1, (hdigits e he).2.1⟩) h)

theorem quotable_escaped (cs : List Char) : Quotable '"' (cs.flatMap escapeChar) := by
  induction cs with
  | nil => exact .nil
  | cons c cs ih => exact quotable_escapeChar c ih

end Strings

def isMark (c : Char) : Bool := c.isDigit || "[]\x7b\x7d:,-aeflnrstu \n".toList.contains c

theorem eq_newline_of_isMark {c : Char} (h : isMark c = true) (hc : isControl c = true) :
    c = '\n' := by
  rw [isMark, Bool.or_eq_true, List.contains_iff_mem] at h
  rcases h with hdigit | hmem
  · simp only [Char.isDigit, Bool.and_eq_true, decide_eq_true_eq] at hdigit
    have hlow : 48 ≤ c.toNat := hdigit.1
    have hcontrol : c.toNat < 0x20 := of_decide_eq_true hc
    omega
  · have hmarks : ("[]\x7b\x7d:,-aeflnrstu \n".toList.all fun c => !isControl c || c == '\n') =
        true := by decide
    simpa [hc] using List.all_eq_true.1 hmarks c hmem

/-- Marks and strings, of which no two stand side by side. -/
inductive Printed : List Char → Prop where
  | nil : Printed []
  | mark {c : Char} {cs : List Char} : isMark c = true → Printed cs → Printed (c :: cs)
  | string {cs : List Char} (s : String) : cs.head? ≠ some '"' → Printed cs →
    Printed (stringText s ++ cs)

section Pieces
variable {a b : List Char}

theorem printed_marks (ha : a.all isMark = true) (hb : Printed b) : Printed (a ++ b) := by
  induction a with
  | nil => exact hb
  | cons c a ih =>
    rw [List.all_cons, Bool.and_eq_true] at ha
    exact .mark ha.1 (ih ha.2)

theorem printed_of_marks (ha : a.all isMark = true) : Printed a := by
  simpa using printed_marks ha .nil

theorem Printed.append (ha : Printed a) (hhead : b.head? ≠ some '"') (hb : Printed b) :
    Printed (a ++ b) := by
  induction ha with
  | nil => exact hb
  | mark hc _ ih => exact .mark hc ih
  | @string cs s hnext _ ih =>
    rw [List.append_assoc]
    refine .string s ?_ ih
    cases cs with
    | nil => exact hhead
    | cons c cs => exact hnext

theorem printed_string (s : String) : Printed (stringText s) := by
  simpa using Printed.string s (by simp) .nil

end Pieces

theorem marks_int (n : Int) : (toString n).toList.all isMark = true := by
  have hnat (m : Nat) : m.repr.toList.all isMark = true := by
    rw [Nat.toList_repr, List.all_eq_true]
    intro c hc
    rw [isMark, Nat.isDigit_of_mem_toDigits (by decide) (by decide) hc, Bool.true_or]
  rw [Int.toString_eq_repr, Int.repr_eq_if]
  split
  · exact hnat _
  · rw [String.toList_append, List.all_append, hnat]
    decide

theorem marks_newLine (depth : Nat) : (newLine depth).all isMark = true := by
  have hblank : isMark ' ' = true := by decide
  have hline : isMark '\n' = true := by decide
  simp [newLine, hblank, hline]

theorem printed_bracketed {inside : List Char} {left right : Char} (depth : Nat)
    (hleft : isMark left = true) (h : Printed inside) (hright : isMark right = true) :
    Printed (left :: inside ++ newLine depth ++ [right]) := by
  rw [List.append_assoc, List.cons_append]
  refine .mark hleft (h.append (by simp [newLine]) ?_)
  exact printed_marks (marks_newLine depth) (printed_of_marks (by simpa using hright))

mutual

theorem printed_text (depth : Nat) : (v : Json) → Printed (text depth v)
  | null => printed_of_marks (a := "null".toList) (by decide)
  | bool true => printed_of_marks (a := "true".toList) (by decide)
  | bool false => printed_of_marks (a := "false".toList) (by decide)
  | int n => printed_of_marks (marks_int n)
  | str s => printed_string s
  | arr [] => printed_of_marks (a := ['[', ']']) (by decide)
  | arr (v :: vs) =>
    printed_bracketed depth (by decide) (printed_items (depth + 1) (v :: vs)) (by decide)
  | obj [] => printed_of_marks (a := ['\x7b', '\x7d']) (by decide)
  | obj (m :: ms) =>
    printed_bracketed depth (by decide) (printed_members (depth + 1) (m :: ms)) (by decide)

theorem printed_items (depth : Nat) : (vs : List Json) → Printed (itemsText depth vs)
  | [] => .nil
  | [v] => printed_marks (marks_newLine depth) (printed_text depth v)
  | v :: w :: vs => by
    have hlater : Printed (',' :: itemsText depth (w :: vs)) :=
      .mark (by decide) (printed_items depth (w :: vs))
    rw [itemsText, List.append_assoc]
    · exact printed_marks (marks_newLine depth)
        ((printed_text depth v).append (by simp) hlater)
    · simp

theorem printed_members (depth : Nat) :
    (ms : List (String × Json)) → Printed (membersText depth ms)
  | [] => .nil
  | [(k, v)] => by
    rw [membersText, List.append_assoc, List.append_assoc]
    exact printed_marks (marks_newLine depth)
      (.string k (by simp) (printed_marks (by decide) (printed_text depth v)))
  | (k, v) :: m :: ms => by
    have hlater : Printed (',' :: membersText depth (m :: ms)) :=
      .mark (by decide) (printed_members depth (m :: ms))
    rw [membersText, List.append_assoc, List.append_assoc, List.append_assoc]
    · exact printed_marks (marks_newLine depth) (.string k (by simp)
        (printed_marks (by decide) ((printed_text depth v).append (by simp) hlater)))
    · simp

end

theorem printed_render (document : Json) : Printed document.render.toList := by
  rw [render, String.toList_ofList]
  exact (printed_text 0 document).append (by simp) (printed_of_marks (by decide))

/-- Where a reader of strings is in a text. -/
inductive Place where
  | outside
  | inside
  | escaped
  deriving DecidableEq, Repr

def Place.step : Place → Char → Place
  | .outside, c => if c = '"' then .inside else .outside
  | .inside, c => if c = '"' then .outside else if c = '\\' then .escaped else .inside
  | .escaped, _ => .inside

def placeAfter (cs : List Char) : Place := cs.foldl Place.step .outside

/-- A text that is over outside of strings and has no control characters but line ends there. -/
structure LaidOut (cs : List Char) : Prop where
  closed : placeAfter cs = .outside
  controls : ∀ before c after, cs = before ++ c :: after → isControl c = true →
    c = '\n' ∧ placeAfter before = .outside

section Layout
variable {a b content : List Char} {c : Char}

theorem laidOut_append (ha : LaidOut a) (hb : LaidOut b) : LaidOut (a ++ b) where
  closed := by rw [placeAfter, List.foldl_append, ← placeAfter, ha.closed, ← placeAfter, hb.closed]
  controls before c after hsplit hc := by
    rcases List.append_eq_append_iff.1 hsplit with ⟨more, rfl, hmore⟩ | ⟨more, rfl, hmore⟩
    · obtain ⟨hline, hplace⟩ := hb.controls more c after hmore hc
      refine ⟨hline, ?_⟩
      rw [placeAfter, List.foldl_append, ← placeAfter, ha.closed]
      exact hplace
    · cases more with
      | nil =>
        obtain ⟨hline, -⟩ := hb.controls [] c after hmore.symm hc
        exact ⟨hline, by simpa using ha.closed⟩
      | cons d more =>
        obtain ⟨rfl, -⟩ := List.cons.inj hmore
        exact ha.controls before c more rfl hc

theorem laidOut_mark (h : isMark c = true) : LaidOut [c] where
  closed := by
    have hquote : c ≠ '"' := by rintro rfl; exact absurd h (by decide)
    simp [placeAfter, Place.step, hquote]
  controls before d after hsplit hd := by
    obtain ⟨rfl, rfl, rfl⟩ : before = [] ∧ c = d ∧ after = [] := by
      cases before <;> simp_all
    exact ⟨eq_newline_of_isMark h hd, rfl⟩

theorem foldl_step_quotable (h : Quotable '"' content) :
    content.foldl Place.step .inside = .inside := by
  induction h with
  | nil => rfl
  | plain hquote hback _ ih => simpa [Place.step, hquote, hback] using ih
  | pair _ ih => simpa [Place.step] using ih

theorem laidOut_string (s : String) : LaidOut (stringText s) where
  closed := by
    simp [placeAfter, stringText, Place.step, foldl_step_quotable (quotable_escaped s.toList)]
  controls before c after hsplit hc := by
    have hmem : c ∈ stringText s := by simp [hsplit]
    simp [isControl_of_mem_stringText hmem] at hc

theorem Printed.laidOut (h : Printed a) : LaidOut a := by
  induction h with
  | nil => exact ⟨rfl, by simp⟩
  | mark hc _ ih => exact laidOut_append (laidOut_mark hc) ih
  | string s _ _ ih => exact laidOut_append (laidOut_string s) ih

end Layout

end KotlinSchema.Json
