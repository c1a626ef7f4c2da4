import KotlinSchema.Json.Parser
import KotlinSchema.Proofs.Json.Pieces
import KotlinSchema.Proofs.Model.Tables
import Mathlib.Data.List.DropRight

/-! Printed documents are read back. Each piece of a text is read whatever follows it, a number
where it is over. So values are read one inside the other and the layout between them is skipped,
and the first character of a value decides what it is. -/

namespace KotlinSchema.Json
open Text

section Strings
variable {a b c d e : Char} {rest : List Char} {n : Nat}

theorem stringBody?_plain (hquote : c ≠ '"') (hback : c ≠ '\\') (hc : isControl c = false) :
    stringBody? (c :: rest) = (stringBody? rest).map fun (cs, rest) => (c :: cs, rest) := by
  have hcontrol : ¬(c = '\\' ∨ c.toNat < 0x20) := by
    simpa [hback] using of_decide_eq_false hc
  rw [stringBody?, if_neg hcontrol]
  all_goals simp [hquote, hback]

theorem stringBody?_short (h : shortEscape? e = some c) :
    stringBody? ('\\' :: e :: rest) = (stringBody? rest).map fun (cs, rest) => (c :: cs, rest) := by
  have hne : e ≠ 'u' := by
    rintro rfl
    simp [shortEscape?] at h
  rw [stringBody?]
  · cases stringBody? rest <;> simp [h]
  all_goals simp [hne]

theorem stringBody?_unit (h : unit? a b c d = some n) (hhigh : isHigh n = false)
    (hlow : isLow n = false) :
    stringBody? ('\\' :: 'u' :: a :: b :: c :: d :: rest) =
      (stringBody? rest).map fun (cs, rest) => (Char.ofNat n :: cs, rest) := by
  -- The reader asks whether two units stand together; only if the first is a high one does that
  -- matter.
  by_cases hpair : ∃ a b c d more, rest = '\\' :: 'u' :: a :: b :: c :: d :: more
  · obtain ⟨a', b', c', d', more, rfl⟩ := hpair
    rw [stringBody?]
    cases stringBody? ('\\' :: 'u' :: a' :: b' :: c' :: d' :: more) <;> simp [h, hhigh, hlow]
  · rw [stringBody?]
    · cases stringBody? rest <;> simp [h, hhigh, hlow]
    · exact fun a' b' c' d' more hmore => hpair ⟨a', b', c', d', more, hmore⟩

theorem unit?_hex (h : n < 0x10000) :
    ∃ a b c d, hex 4 n = [a, b, c, d] ∧ unit? a b c d = some n := by
  have hdigit : ∀ k < 16, hexDigit? (Nat.digitChar k) = some k := by decide
  have hmod (m : Nat) : hexDigit? (Nat.digitChar (m % 16)) = some (m % 16) :=
    hdigit _ (Nat.mod_lt m (by decide))
  refine ⟨_, _, _, _, rfl, ?_⟩
  simp only [unit?, hmod, Option.bind_eq_bind, Option.bind_some, Option.pure_def,
    Option.some.injEq]
  omega

theorem stringBody?_escapeChar (c : Char) (rest : List Char) :
    stringBody? (escapeChar c ++ rest) =
      (stringBody? rest).map fun (cs, rest) => (c :: cs, rest) := by
  unfold escapeChar
  split_ifs with hquote hback hline hreturn htab h8 h12 hcontrol
  · subst hquote
    exact stringBody?_short rfl
  · subst hback
    exact stringBody?_short rfl
  · subst hline
    exact stringBody?_short rfl
  · subst hreturn
    exact stringBody?_short rfl
  · subst htab
    exact stringBody?_short rfl
  · refine stringBody?_short ?_
    rw [← Char.ofNat_toNat c, h8]
    rfl
  · refine stringBody?_short ?_
    rw [← Char.ofNat_toNat c, h12]
    rfl
  · obtain ⟨x, y, z, w, hhex, hunit⟩ := unit?_hex (n := c.toNat) (by omega)
    have hhigh : isHigh c.toNat = false := by simp [isHigh]; omega
    have hlow : isLow c.toNat = false := by simp [isLow]; omega
    have hread : stringBody? ('\\' :: 'u' :: x :: y :: z :: w :: rest) = _ :=
      stringBody?_unit hunit hhigh hlow
    rw [Char.ofNat_toNat] at hread
    rw [hhex]
    exact hread
  · exact stringBody?_plain hquote hback (decide_eq_false hcontrol)

theorem stringBody?_escaped (cs rest : List Char) :
    stringBody? (cs.flatMap escapeChar ++ '"' :: rest) = some (cs, rest) := by
  induction cs with
  | nil => simp [stringBody?]
  | cons c cs ih =>
    rw [List.flatMap_cons, List.append_assoc, stringBody?_escapeChar, ih]
    rfl

end Strings

section Numbers
variable {rest : List Char} {c : Char}

/-- A number that ends where the text begins does not go on in it. -/
def EndsNumber (rest : List Char) : Prop :=
  ∀ c ∈ rest.head?, c.isDigit = false ∧ c ≠ '.' ∧ c ≠ 'e' ∧ c ≠ 'E'

theorem head?_toDigits {n : Nat} (h : n ≠ 0) : (Nat.toDigits 10 n).head? ≠ some '0' := by
  induction n using Nat.strongRecOn with
  | _ n ih =>
    by_cases hlow : n < 10
    · have hdigits : ∀ n < 10, n ≠ 0 → Nat.digitChar n ≠ '0' := by decide
      rw [Nat.toDigits_of_lt_base hlow]
      simpa using hdigits n hlow h
    · rw [Nat.toDigits_of_base_le (by decide) (by omega),
        List.head?_append_of_ne_nil _ Nat.toDigits_ne_nil]
      exact ih (n / 10) (by omega) (by omega)

theorem nat?_toDigits (n : Nat) (h : EndsNumber rest) :
    nat? (Nat.toDigits 10 n ++ rest) = some (n, rest) := by
  have hdigits : ∀ c ∈ Nat.toDigits 10 n, c.isDigit = true := fun c =>
    Nat.isDigit_of_mem_toDigits (by decide) (by decide)
  have htake : (Nat.toDigits 10 n ++ rest).takeWhile Char.isDigit = Nat.toDigits 10 n := by
    rw [List.takeWhile_append_of_pos hdigits]
    cases rest with
    | nil => simp
    | cons c rest => simp [(h c rfl).1]
  have hdrop : (Nat.toDigits 10 n ++ rest).dropWhile Char.isDigit = rest := by
    rw [List.dropWhile_append_of_pos hdigits]
    cases rest with
    | nil => rfl
    | cons c rest => simp [(h c rfl).1]
  have hempty : (Nat.toDigits 10 n).isEmpty = false :=
    List.isEmpty_eq_false_iff.2 Nat.toDigits_ne_nil
  have hzero :
      ((Nat.toDigits 10 n).head? == some '0' && (Nat.toDigits 10 n).length > 1) = false := by
    by_cases hn : n = 0
    · subst hn
      rfl
    · simp [head?_toDigits hn]
  have hnext : rest.head?.any (fun c => c == '.' || c == 'e' || c == 'E') = false := by
    cases rest with
    | nil => rfl
    | cons c rest => simpa [and_assoc] using (h c rfl).2
  have hvalue : natOfDigits (Nat.toDigits 10 n) = n := Nat.ofDigitChars_ten_toDigits
  rw [nat?, htake, hdrop, hempty, hzero, hnext, hvalue]
  rfl

theorem exists_toDigits (n : Nat) : ∃ c cs, Nat.toDigits 10 n = c :: cs ∧ c.isDigit = true := by
  obtain ⟨c, cs, hdigits⟩ := List.exists_cons_of_ne_nil (Nat.toDigits_ne_nil (n := n) (b := 10))
  refine ⟨c, cs, hdigits, Nat.isDigit_of_mem_toDigits (b := 10) (n := n) (by decide) (by decide) ?_⟩
  simp [hdigits]

theorem toList_toString (n : Int) : (toString n).toList =
    if 0 ≤ n then Nat.toDigits 10 n.toNat else '-' :: Nat.toDigits 10 (-n).toNat := by
  rw [Int.toString_eq_repr, Int.repr_eq_if]
  split
  · rw [Nat.toList_repr]
  · rw [String.toList_append, Nat.toList_repr]
    rfl

theorem int?_toString (n : Int) (h : EndsNumber rest) :
    int? ((toString n).toList ++ rest) = some (n, rest) := by
  rw [toList_toString]
  split
  · obtain ⟨c, cs, hdigits, hc⟩ := exists_toDigits n.toNat
    have hsign : c ≠ '-' := by
      rintro rfl
      exact absurd hc (by decide)
    have hvalue : (n.toNat : Int) = n := by omega
    have hread := nat?_toDigits n.toNat h
    rw [hdigits] at hread ⊢
    rw [List.cons_append, int?, ← List.cons_append, hread, Option.map_some]
    · exact congrArg (fun m => some (m, rest)) hvalue
    · simp [hsign]
  · have hvalue : -((-n).toNat : Int) = n := by omega
    rw [List.cons_append, int?, nat?_toDigits _ h, Option.map_some]
    exact congrArg (fun m => some (m, rest)) hvalue

theorem exists_number (n : Int) :
    ∃ c cs, (toString n).toList = c :: cs ∧ (c.isDigit = true ∨ c = '-') := by
  rw [toList_toString]
  split
  · obtain ⟨c, cs, hdigits, hc⟩ := exists_toDigits n.toNat
    exact ⟨c, cs, hdigits, .inl hc⟩
  · exact ⟨'-', _, rfl, .inr rfl⟩

theorem ne_of_number {d : Char} (h : c.isDigit = true ∨ c = '-')
    (hd : d.isDigit = false ∧ d ≠ '-') : c ≠ d := by
  rintro rfl
  rcases h with h | h
  · simp [hd.1] at h
  · exact hd.2 h

theorem isSpace_of_number (h : c.isDigit = true ∨ c = '-') : isSpace c = false := by
  have hblank : c ≠ ' ' := ne_of_number h (by decide)
  have hline : c ≠ '\n' := ne_of_number h (by decide)
  have htab : c ≠ '\t' := ne_of_number h (by decide)
  have hreturn : c ≠ '\r' := ne_of_number h (by decide)
  simp [isSpace, hblank, hline, htab, hreturn]

end Numbers

/-- No object of a document has two members with one name. -/
inductive DistinctKeys : Json → Prop where
  | null : DistinctKeys null
  | bool (b : Bool) : DistinctKeys (bool b)
  | int (n : Int) : DistinctKeys (int n)
  | str (s : String) : DistinctKeys (str s)
  | arr {vs : List Json} : (∀ v ∈ vs, DistinctKeys v) → DistinctKeys (arr vs)
  | obj {ms : List (String × Json)} : (ms.map Prod.fst).Nodup → (∀ m ∈ ms, DistinctKeys m.2) →
    DistinctKeys (obj ms)

section Spaces
variable {cs rest : List Char} {c : Char} {fuel : Nat}

theorem skipSpace_of_ne (h : isSpace c = false) : skipSpace (c :: cs) = c :: cs := by
  simp [skipSpace, h]

theorem skipSpace_newLine (depth : Nat) (cs : List Char) :
    skipSpace (newLine depth ++ cs) = skipSpace cs := by
  have hspaces : ∀ c ∈ newLine depth, isSpace c = true := by
    simp only [newLine, List.forall_mem_cons, List.mem_replicate]
    exact ⟨by decide, fun c hc => hc.2 ▸ by decide⟩
  exact List.dropWhile_append_of_pos hspaces

theorem skipSpace_idem (cs : List Char) : skipSpace (skipSpace cs) = skipSpace cs :=
  List.dropWhile_idempotent _ _

theorem value?_congr (h : skipSpace cs = skipSpace rest) : value? fuel cs = value? fuel rest := by
  cases fuel with
  | zero => rfl
  | succ fuel => rw [value?, value?, h]

theorem items?_congr (h : skipSpace cs = skipSpace rest) : items? fuel cs = items? fuel rest := by
  cases fuel with
  | zero => rfl
  | succ fuel => rw [items?, items?, value?_congr h]

theorem members?_congr (h : skipSpace cs = skipSpace rest) :
    members? fuel cs = members? fuel rest := by
  cases fuel with
  | zero => rfl
  | succ fuel => rw [members?, members?, h]

end Spaces

section Values
variable {rest : List Char} {fuel : Nat}

theorem endsNumber_newLine (depth : Nat) (rest : List Char) :
    EndsNumber (newLine depth ++ rest) := by
  intro c hc
  obtain rfl : '\n' = c := by simpa [newLine] using hc
  decide

theorem endsNumber_comma (rest : List Char) : EndsNumber (',' :: rest) := by
  intro c hc
  obtain rfl : ',' = c := by simpa using hc
  decide

theorem exists_text (depth : Nat) (v : Json) :
    ∃ c cs, text depth v = c :: cs ∧ isSpace c = false ∧ c ≠ ']' := by
  cases v with
  | null => exact ⟨'n', _, rfl, by decide, by decide⟩
  | bool b =>
    cases b with
    | true => exact ⟨'t', _, rfl, by decide, by decide⟩
    | false => exact ⟨'f', _, rfl, by decide, by decide⟩
  | int n =>
    obtain ⟨c, cs, hcs, hc⟩ := exists_number n
    exact ⟨c, cs, hcs, isSpace_of_number hc, ne_of_number hc (by decide)⟩
  | str s => exact ⟨'"', _, rfl, by decide, by decide⟩
  | arr vs =>
    cases vs with
    | nil => exact ⟨'[', _, rfl, by decide, by decide⟩
    | cons v vs => exact ⟨'[', _, rfl, by decide, by decide⟩
  | obj ms =>
    cases ms with
    | nil => exact ⟨'\x7b', _, rfl, by decide, by decide⟩
    | cons m ms => exact ⟨'\x7b', _, rfl, by decide, by decide⟩

theorem value?_int (n : Int) (h : EndsNumber rest) :
    value? (fuel + 1) ((toString n).toList ++ rest) = some (int n, rest) := by
  obtain ⟨c, cs, hcs, hc⟩ := exists_number n
  have hread := int?_toString n h
  rw [hcs, List.cons_append] at hread ⊢
  have hother {word : List Char} {d : Char} (hd : d.isDigit = false ∧ d ≠ '-')
      (hword : word.head? = some d) : after? word (c :: (cs ++ rest)) = none := by
    obtain ⟨word, rfl⟩ := List.head?_eq_some_iff.1 hword
    rw [after?, if_neg (ne_of_number hc hd)]
  rw [value?, skipSpace_of_ne (isSpace_of_number hc)]
  split
  · rename_i heq
    exact absurd (List.cons.inj heq).1 (ne_of_number hc (by decide))
  · rename_i heq
    exact absurd (List.cons.inj heq).1 (ne_of_number hc (by decide))
  · rename_i heq
    exact absurd (List.cons.inj heq).1 (ne_of_number hc (by decide))
  · have hnull : after? "null".toList (c :: (cs ++ rest)) = none := hother (by decide) rfl
    have htrue : after? "true".toList (c :: (cs ++ rest)) = none := hother (by decide) rfl
    have hfalse : after? "false".toList (c :: (cs ++ rest)) = none := hother (by decide) rfl
    rw [hnull, htrue, hfalse, hread]
    rfl

/-- A value is read back wherever a number in its place would be over. -/
def ReadsBack (v : Json) : Prop :=
  ∀ depth fuel rest, (text depth v).length ≤ fuel → EndsNumber rest →
    value? fuel (text depth v ++ rest) = some (v, rest)

theorem exists_fuel {cs : List Char} (hne : cs ≠ []) (h : cs.length ≤ fuel) :
    ∃ n, fuel = n + 1 :=
  Nat.exists_eq_add_one.2 (Nat.lt_of_lt_of_le (List.length_pos_iff.2 hne) h)

theorem ReadsBack.line {v : Json} (h : ReadsBack v) {depth : Nat}
    (hfuel : (text depth v).length ≤ fuel) (hrest : EndsNumber rest) :
    value? fuel (newLine depth ++ (text depth v ++ rest)) = some (v, rest) := by
  rw [value?_congr (skipSpace_newLine depth _)]
  exact h depth fuel rest hfuel hrest

theorem items?_text {vs : List Json} (h : ∀ v ∈ vs, ReadsBack v) (hne : vs ≠ [])
    (depth outer : Nat) (rest : List Char) (hfuel : (itemsText depth vs).length ≤ fuel) :
    items? fuel (itemsText depth vs ++ (newLine outer ++ ']' :: rest)) = some (vs, rest) := by
  induction vs generalizing fuel with
  | nil => exact absurd rfl hne
  | cons v vs ih =>
    obtain ⟨hv, hvs⟩ := List.forall_mem_cons.1 h
    obtain ⟨fuel, rfl⟩ := exists_fuel (by cases vs <;> simp [itemsText, newLine]) hfuel
    -- A line end or a comma stands behind the item, and no number goes on in either.
    cases vs with
    | nil =>
      have hlength : (text depth v).length ≤ fuel := by
        simp [itemsText, newLine] at hfuel
        omega
      rw [itemsText, List.append_assoc, items?,
        hv.line hlength (endsNumber_newLine outer _), Option.bind_eq_bind, Option.bind_some]
      simp only [skipSpace_newLine]
      rfl
    | cons w vs =>
      simp only [itemsText, List.length_append, List.length_cons] at hfuel
      have hlength : (newLine depth).length = 2 * depth + 1 := by simp [newLine]
      have hlater : (itemsText depth (w :: vs)).length ≤ fuel := by omega
      rw [itemsText, List.append_assoc, List.append_assoc, items?, List.cons_append,
        hv.line (by omega) (endsNumber_comma _), Option.bind_eq_bind, Option.bind_some]
      · simp only [skipSpace_of_ne (show isSpace ',' = false from rfl), ih hvs (by simp) hlater]
        rfl
      · simp

def afterMember (fuel : Nat) (m : String × Json) :
    List Char → Option (List (String × Json) × List Char)
  | ',' :: rest => do
    let (ms, rest) ← members? fuel rest
    return (m :: ms, rest)
  | '\x7d' :: rest => return ([m], rest)
  | _ => none

theorem members?_member (key : String) {v : Json} (h : ReadsBack v) (depth : Nat)
    (hfuel : (text depth v).length ≤ fuel) (hrest : EndsNumber rest) :
    members? (fuel + 1)
        (newLine depth ++ (stringText key ++ (':' :: ' ' :: (text depth v ++ rest)))) =
      afterMember fuel (key, v) (skipSpace rest) := by
  have hkey (cs : List Char) : stringText key ++ cs =
      '"' :: (key.toList.flatMap escapeChar ++ '"' :: cs) := by simp [stringText]
  have hspace (cs : List Char) : skipSpace (' ' :: cs) = skipSpace cs := rfl
  have hquote (cs : List Char) : skipSpace ('"' :: cs) = '"' :: cs := rfl
  have hcolon (cs : List Char) : skipSpace (':' :: cs) = ':' :: cs := rfl
  have hvalue := h depth fuel rest hfuel hrest
  rw [← value?_congr (hspace _)] at hvalue
  rw [members?, skipSpace_newLine, hkey, hquote]
  simp only [after?, if_true, Option.bind_eq_bind, Option.bind_some, stringBody?_escaped, hcolon,
    hvalue, String.ofList_toList]
  rfl

theorem members?_text {ms : List (String × Json)} (h : ∀ m ∈ ms, ReadsBack m.2) (hne : ms ≠ [])
    (depth outer : Nat) (rest : List Char) (hfuel : (membersText depth ms).length ≤ fuel) :
    members? fuel (membersText depth ms ++ (newLine outer ++ '\x7d' :: rest)) =
      some (ms, rest) := by
  induction ms generalizing fuel with
  | nil => exact absurd rfl hne
  | cons m ms ih =>
    obtain ⟨hm, hms⟩ := List.forall_mem_cons.1 h
    obtain ⟨key, v⟩ := m
    obtain ⟨fuel, rfl⟩ := exists_fuel (by cases ms <;> simp [membersText, newLine]) hfuel
    have hlength : (newLine depth).length = 2 * depth + 1 := by simp [newLine]
    cases ms with
    | nil =>
      simp only [membersText, List.length_append] at hfuel
      have hvalue : (text depth v).length ≤ fuel := by omega
      rw [membersText, List.append_assoc, List.append_assoc, List.append_assoc]
      rw [List.cons_append, List.singleton_append,
        members?_member key hm depth hvalue (endsNumber_newLine outer _), skipSpace_newLine]
      rfl
    | cons n ms =>
      simp only [membersText, List.length_append, List.length_cons] at hfuel
      have hvalue : (text depth v).length ≤ fuel := by omega
      have hlater : (membersText depth (n :: ms)).length ≤ fuel := by omega
      rw [membersText, List.append_assoc, List.append_assoc, List.append_assoc, List.append_assoc]
      · rw [List.cons_append, List.singleton_append, List.cons_append,
          members?_member key hm depth hvalue (endsNumber_comma _),
          skipSpace_of_ne (show isSpace ',' = false from rfl), afterMember, ih hms (by simp) hlater]
        rfl
      · simp

theorem readsBack_of {v : Json} (h : ∀ depth fuel rest, (text depth v).length ≤ fuel + 1 →
    EndsNumber rest → value? (fuel + 1) (text depth v ++ rest) = some (v, rest)) : ReadsBack v := by
  intro depth fuel rest hfuel hrest
  obtain ⟨c, cs, hcs, -⟩ := exists_text depth v
  obtain ⟨fuel, rfl⟩ := exists_fuel (by simp [hcs]) hfuel
  exact h depth fuel rest hfuel hrest

theorem exists_items (depth : Nat) (v : Json) (vs : List Json) (rest : List Char) :
    ∃ c cs, skipSpace (itemsText depth (v :: vs) ++ rest) = c :: cs ∧ c ≠ ']' := by
  obtain ⟨c, cs, hcs, hspace, hc⟩ := exists_text depth v
  cases vs with
  | nil =>
    rw [itemsText, List.append_assoc, skipSpace_newLine, hcs, List.cons_append,
      skipSpace_of_ne hspace]
    exact ⟨c, _, rfl, hc⟩
  | cons w vs =>
    rw [itemsText, List.append_assoc, List.append_assoc, skipSpace_newLine, hcs, List.cons_append,
      skipSpace_of_ne hspace]
    · exact ⟨c, _, rfl, hc⟩
    · simp

theorem exists_members (depth : Nat) (m : String × Json) (ms : List (String × Json))
    (rest : List Char) : ∃ cs, skipSpace (membersText depth (m :: ms) ++ rest) = '"' :: cs := by
  obtain ⟨key, v⟩ := m
  cases ms with
  | nil =>
    rw [membersText, List.append_assoc, List.append_assoc, List.append_assoc, skipSpace_newLine]
    exact ⟨_, rfl⟩
  | cons n ms =>
    rw [membersText, List.append_assoc, List.append_assoc, List.append_assoc, List.append_assoc,
      skipSpace_newLine]
    · exact ⟨_, rfl⟩
    · simp

theorem readsBack_arr {vs : List Json} (h : ∀ v ∈ vs, ReadsBack v) : ReadsBack (arr vs) := by
  refine readsBack_of fun depth fuel rest hfuel _ => ?_
  cases vs with
  | nil => rfl
  | cons v vs =>
    simp only [text, List.length_append, List.length_cons] at hfuel
    have hlength : (itemsText (depth + 1) (v :: vs)).length ≤ fuel := by omega
    have hitems := items?_text h (by simp) (depth + 1) depth rest hlength
    obtain ⟨c, cs, hcs, hc⟩ := exists_items (depth + 1) v vs (newLine depth ++ ']' :: rest)
    rw [← items?_congr (skipSpace_idem _), hcs] at hitems
    have hlist : text depth (arr (v :: vs)) ++ rest =
        '[' :: (itemsText (depth + 1) (v :: vs) ++ (newLine depth ++ ']' :: rest)) := by
      simp [text]
    rw [hlist, value?, skipSpace_of_ne (by decide)]
    simp only [hcs]
    split
    -- The list is not taken for an empty one.
    · exact absurd (List.cons.inj ‹_›).1 hc
    · rw [hitems]
      rfl

theorem readsBack_obj {ms : List (String × Json)} (hkeys : (ms.map Prod.fst).Nodup)
    (h : ∀ m ∈ ms, ReadsBack m.2) : ReadsBack (obj ms) := by
  refine readsBack_of fun depth fuel rest hfuel _ => ?_
  cases ms with
  | nil => rfl
  | cons m ms =>
    simp only [text, List.length_append, List.length_cons] at hfuel
    have hlength : (membersText (depth + 1) (m :: ms)).length ≤ fuel := by omega
    have hmembers := members?_text h (by simp) (depth + 1) depth rest hlength
    obtain ⟨cs, hcs⟩ := exists_members (depth + 1) m ms (newLine depth ++ '\x7d' :: rest)
    rw [← members?_congr (skipSpace_idem _), hcs] at hmembers
    have hobject : text depth (obj (m :: ms)) ++ rest =
        '\x7b' :: (membersText (depth + 1) (m :: ms) ++ (newLine depth ++ '\x7d' :: rest)) := by
      simp [text]
    rw [hobject, value?, skipSpace_of_ne (by decide)]
    simp only [hcs]
    split
    · exact absurd (List.cons.inj ‹_›).1 (by decide)
    · simp only [hmembers, Option.map_some, Table.entries_ofList hkeys]

theorem readsBack {v : Json} (h : v.DistinctKeys) : ReadsBack v := by
  induction h with
  | null => exact readsBack_of fun _ _ _ _ _ => rfl
  | bool b => cases b <;> exact readsBack_of fun _ _ _ _ _ => rfl
  | int n => exact readsBack_of fun _ _ _ _ hrest => value?_int n hrest
  | str s =>
    refine readsBack_of fun depth fuel rest _ _ => ?_
    have hstring : text depth (str s) ++ rest =
        '"' :: (s.toList.flatMap escapeChar ++ '"' :: rest) := by simp [text, stringText]
    rw [hstring, value?, skipSpace_of_ne (by decide)]
    simp only [stringBody?_escaped, Option.map_some, String.ofList_toList]
  | arr _ ih => exact readsBack_arr ih
  | obj hkeys _ ih => exact readsBack_obj hkeys ih

end Values

section Documents
variable {document : Json}

theorem parse?_render (h : document.DistinctKeys) : parse? document.render = some document := by
  have hread := readsBack h 0 (2 * (text 0 document ++ ['\n']).length + 1) ['\n']
    (by simp only [List.length_append]; omega) (endsNumber_newLine 0 [])
  rw [parse?, render, String.toList_ofList, hread]
  rfl

/-- A text is read back as the document that it was made of, members in their order; so no two
documents have one text. It ends with one line end, and the control characters in it are line ends
outside of strings. -/
theorem render_reads_back {members : List (String × Json)} (h : (obj members).DistinctKeys) :
    parse? (obj members).render = some (obj members) ∧
    (∀ other : Json, other.DistinctKeys → other.render = (obj members).render →
      other = obj members) ∧
    (∃ body, (obj members).render.toList = body ++ ['\n'] ∧ body.getLast? ≠ some '\n') ∧
    ∀ before c after, (obj members).render.toList = before ++ c :: after → isControl c = true →
      c = '\n' ∧ placeAfter before = .outside := by
  refine ⟨parse?_render h, fun other hother hrender => ?_, ⟨text 0 (obj members), ?_, ?_⟩,
    (printed_render (obj members)).laidOut.controls⟩
  · have hread := parse?_render hother
    rw [hrender, parse?_render h] at hread
    exact (Option.some.inj hread).symm
  · rw [render, String.toList_ofList]
  · cases members with
    | nil => simp [text]
    | cons m ms =>
      rw [text, List.getLast?_concat]
      decide

def nestedMembers : List (String × Json) :=
  [("", arr [arr [], obj [], null]), ("\"\\", obj [("b", int (-120)), ("a", bool true)]),
    ("\n", str "\x01\x7f/\t\\\"é")]

theorem render_reads_back_nestedMembers :
    (obj nestedMembers).DistinctKeys ∧
    parse? (obj nestedMembers).render = some (obj nestedMembers) := by
  have hkeys : (obj nestedMembers).DistinctKeys := by
    have hlist : (arr [arr [], obj [], null]).DistinctKeys := by
      refine .arr ?_
      simp only [List.forall_mem_cons]
      exact ⟨.arr (by simp), .obj (by simp) (by simp), .null, by simp⟩
    have hobject : (obj [("b", int (-120)), ("a", bool true)]).DistinctKeys := by
      refine .obj (by decide) ?_
      simp only [List.forall_mem_cons]
      exact ⟨.int _, .bool _, by simp⟩
    refine .obj (by decide) ?_
    simp only [nestedMembers, List.forall_mem_cons]
    exact ⟨hlist, hobject, .str _, by simp⟩
  exact ⟨hkeys, (render_reads_back hkeys).1⟩

end Documents

end KotlinSchema.Json
