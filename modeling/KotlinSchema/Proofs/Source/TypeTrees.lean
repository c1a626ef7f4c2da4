import KotlinSchema.Proofs.Source.TypeArguments

/-! Types as trees, and how they are read from their text. A type is a name, or a name applied to
types; with the trees go their angle brackets, so commas divide the arguments of a type only where no
bracket is open. -/

namespace KotlinSchema.Source
open Text

structure TypeName where
  chars : List Char
  ne_nil : chars ≠ []
  isPlain : ∀ c ∈ chars, isBlank c = false ∧ c ∉ ",<>?{};=".toList

def TypeName.list : TypeName where
  chars := "List".toList
  ne_nil := by decide
  isPlain c hc := by
    have hall : ("List".toList.all fun c => !isBlank c && !",<>?{};=".toList.contains c) = true :=
      rfl
    simpa using List.all_eq_true.1 hall c hc

/-- A type as it is written: a name, a list of some type, or another name with its arguments. Each
type can have the mark of those that can be null. -/
inductive TypeTree where
  | named (name : TypeName) (isNullable : Bool)
  | list (element : TypeTree) (isNullable : Bool)
  | applied (name : TypeName) (h : name.chars ≠ "List".toList) (first : TypeTree)
    (others : List TypeTree) (isNullable : Bool)

def commaJoined (parts : List (List Char)) : List Char := (parts.intersperse [',', ' ']).flatten

def bracketed (parts : List (List Char)) : List Char :=
  if parts.isEmpty then [] else ['<'] ++ commaJoined parts ++ ['>']

def nullMark (isNullable : Bool) : List Char := if isNullable then ['?'] else []

namespace TypeTree

mutual

def chars : TypeTree → List Char
  | named name isNullable => name.chars ++ bracketed [] ++ nullMark isNullable
  | list element isNullable => "List".toList ++ bracketed [element.chars] ++ nullMark isNullable
  | applied name _ first others isNullable =>
    name.chars ++ bracketed (first.chars :: charsOfAll others) ++ nullMark isNullable

def charsOfAll : List TypeTree → List (List Char)
  | [] => []
  | t :: ts => t.chars :: charsOfAll ts

end

theorem charsOfAll_eq (ts : List TypeTree) : charsOfAll ts = ts.map chars := by
  induction ts with
  | nil => rfl
  | cons t ts ih => rw [charsOfAll, ih, List.map_cons]

def isNullable : TypeTree → Bool
  | named _ isNullable | list _ isNullable | applied _ _ _ _ isNullable => isNullable

def head : TypeTree → List Char
  | named name _ | applied name _ _ _ _ => name.chars
  | list _ _ => "List".toList

def arguments : TypeTree → List TypeTree
  | named _ _ => []
  | list element _ => [element]
  | applied _ _ first others _ => first :: others

def core (t : TypeTree) : List Char := t.head ++ bracketed (t.arguments.map chars)

theorem chars_eq (t : TypeTree) : t.chars = t.core ++ nullMark t.isNullable := by
  cases t with
  | named => rfl
  | list => rfl
  | applied name _ first others isNullable =>
    rw [chars, charsOfAll_eq]
    rfl

theorem of_arguments {motive : TypeTree → Prop}
    (h : ∀ t : TypeTree, (∀ a ∈ t.arguments, motive a) → motive t) (t : TypeTree) : motive t :=
  h t fun a ha => by
    have hlt : sizeOf a < sizeOf t := by
      cases t with
      | named => simp [arguments] at ha
      | list element =>
        obtain rfl := List.mem_singleton.1 ha
        simp only [list.sizeOf_spec]
        omega
      | applied name _ first others =>
        rcases List.mem_cons.1 ha with rfl | ha
        · simp only [applied.sizeOf_spec]
          omega
        · have hothers := List.sizeOf_lt_of_mem ha
          simp only [applied.sizeOf_spec]
          omega
    exact of_arguments h a
termination_by sizeOf t

end TypeTree

section Texts
variable {a b : List Char} {parts : List (List Char)}

@[simp] theorem commaJoined_singleton (a : List Char) : commaJoined [a] = a := by
  simp [commaJoined]

theorem commaJoined_cons_cons (a b : List Char) (parts : List (List Char)) :
    commaJoined (a :: b :: parts) = a ++ [',', ' '] ++ commaJoined (b :: parts) := by
  rw [commaJoined, List.intersperse_cons_cons, List.flatten_cons, List.flatten_cons,
    ← List.append_assoc, commaJoined]

theorem bracketed_of_ne_nil (h : parts ≠ []) :
    bracketed parts = ['<'] ++ commaJoined parts ++ ['>'] := by
  rw [bracketed, if_neg (by simpa using h)]

theorem commaJoined_of {P : List Char → Prop}
    (hjoin : ∀ a b, P a → P b → P (a ++ [',', ' '] ++ b)) (hne : parts ≠ [])
    (h : ∀ p ∈ parts, P p) : P (commaJoined parts) := by
  induction parts with
  | nil => exact absurd rfl hne
  | cons p parts ih =>
    obtain ⟨hp, hparts⟩ := List.forall_mem_cons.1 h
    cases parts with
    | nil => simpa using hp
    | cons q parts =>
      rw [commaJoined_cons_cons]
      exact hjoin p _ hp (ih (List.cons_ne_nil q parts) hparts)

theorem TypeName.solid (name : TypeName) : Solid name.chars := fun c hc => (name.isPlain c hc).1

theorem TypeName.not_mem (name : TypeName) {c : Char} (h : c ∈ ",<>?{};=".toList) :
    c ∉ name.chars := fun hc => (name.isPlain c hc).2 h

/-- What holds of all types, within brackets and outside of them: it holds of names and of the mark,
texts that have it have it together, and brackets give back outside what holds within. -/
structure Compositional (outside within : List Char → Prop) : Prop where
  name : ∀ name : TypeName, outside name.chars
  mark : outside ['?']
  append : ∀ {a b}, outside a → outside b → outside (a ++ b)
  enter : ∀ {a}, outside a → within a
  join : ∀ a b, within a → within b → within (a ++ [',', ' '] ++ b)
  bracket : ∀ {a}, within a → outside (['<'] ++ a ++ ['>'])

theorem Compositional.core {outside within : List Char → Prop}
    (h : Compositional outside within) (t : TypeTree)
    (ih : ∀ a ∈ t.arguments, outside a.chars) : outside t.core := by
  have hhead : outside t.head := by
    cases t with
    | named name | applied name => exact h.name name
    | list => exact h.name .list
  rw [TypeTree.core]
  by_cases hne : t.arguments.map TypeTree.chars = []
  · rw [hne, bracketed, if_pos List.isEmpty_nil, List.append_nil]
    exact hhead
  · rw [bracketed_of_ne_nil hne]
    refine h.append hhead (h.bracket (commaJoined_of h.join hne fun p hp => ?_))
    obtain ⟨a, ha, rfl⟩ := List.mem_map.1 hp
    exact h.enter (ih a ha)

theorem Compositional.chars {outside within : List Char → Prop}
    (h : Compositional outside within) (t : TypeTree) : outside t.chars := by
  induction t using TypeTree.of_arguments with
  | h t ih =>
    rw [TypeTree.chars_eq, nullMark]
    split
    · exact h.append (h.core t ih) h.mark
    · rw [List.append_nil]
      exact h.core t ih

end Texts

section Readers
variable {a b : List Char}

theorem TypeName.passed (name : TypeName) : Passed name.chars := by
  refine passed_of_isFlat fun c hc => ?_
  have hplain := (name.isPlain c hc).2
  simp_all [isFlat]

theorem passed_type (t : TypeTree) : Passed t.chars := by
  have h : Compositional Passed Passed :=
    { name := TypeName.passed
      mark := passed_of_isFlat (List.all_eq_true.1 rfl)
      append := passed_append
      enter := id
      join := fun a b ha hb =>
        passed_append (passed_append ha (passed_of_isFlat (List.all_eq_true.1 rfl))) hb
      bracket := passed_bracket }
  exact h.chars t

theorem compositional_spaced : Compositional Spaced Spaced where
  name name := .word name.ne_nil name.solid
  mark := .word (by simp) (solid_of_all rfl)
  append := Spaced.append
  enter := id
  join a b ha hb := by
    have hsplit : a ++ [',', ' '] ++ b = a ++ [','] ++ ' ' :: b := by simp
    rw [hsplit]
    exact (ha.append (.word (by simp) (solid_of_all rfl))).space hb
  bracket ha :=
    ((Spaced.word (by simp) (solid_of_all rfl)).append ha).append
      (.word (by simp) (solid_of_all rfl))

/-- No comma of a text divides it, nor does it change which ones after it do. -/
def Undivided (low : Int) (cs : List Char) : Prop :=
  ∀ depth, low ≤ depth → ∀ rest w ws, splitFrom (· == ',') depth rest = w :: ws →
    splitFrom (· == ',') depth (cs ++ rest) = (cs ++ w) :: ws

theorem undivided_append {low : Int} (ha : Undivided low a) (hb : Undivided low b) :
    Undivided low (a ++ b) := by
  intro depth hdepth rest w ws hrest
  rw [List.append_assoc, List.append_assoc]
  exact ha depth hdepth _ _ _ (hb depth hdepth rest w ws hrest)

theorem undivided_char {low : Int} {c : Char} (hangle : angleChange c = 0)
    (hcomma : c = ',' → 0 < low) : Undivided low [c] := by
  intro depth hdepth rest w ws hrest
  have hsep : ¬((c == ',') = true ∧ depth = 0) := by
    rintro ⟨hc, rfl⟩
    have := hcomma (by simpa using hc)
    omega
  rw [List.singleton_append, splitFrom, hangle, Int.add_zero, if_neg hsep, hrest,
    List.singleton_append]

theorem undivided_bracket (ha : Undivided 1 a) : Undivided 0 (['<'] ++ a ++ ['>']) := by
  intro depth hdepth rest w ws hrest
  have hopen : angleChange '<' = 1 := rfl
  have hclose : angleChange '>' = -1 := rfl
  have hlast : splitFrom (· == ',') (depth + 1) ('>' :: rest) = ('>' :: w) :: ws := by
    rw [splitFrom, if_neg (by simp), hclose, Int.add_assoc, Int.add_right_neg, Int.add_zero, hrest]
  rw [List.append_assoc, List.append_assoc, List.singleton_append, List.singleton_append, splitFrom,
    if_neg (by simp), hopen, ha (depth + 1) (by omega) _ _ _ hlast]
  simp

theorem undivided_of_forall (h : ∀ c ∈ a, angleChange c = 0 ∧ c ≠ ',') : Undivided 0 a := by
  induction a with
  | nil => exact fun _ _ _ _ _ hrest => hrest
  | cons c a ih =>
    obtain ⟨⟨hangle, hcomma⟩, ha⟩ := List.forall_mem_cons.1 h
    exact undivided_append (a := [c]) (undivided_char hangle fun hc => absurd hc hcomma) (ih ha)

theorem TypeName.undivided (name : TypeName) : Undivided 0 name.chars := by
  refine undivided_of_forall fun c hc => ?_
  have hplain := (name.isPlain c hc).2
  simp_all [angleChange]

theorem undivided_type (t : TypeTree) : Undivided 0 t.chars := by
  have hmono : ∀ {a : List Char}, Undivided 0 a → Undivided 1 a :=
    fun ha depth hdepth => ha depth (by omega)
  have hcomma : Undivided 1 [',', ' '] :=
    undivided_append (a := [',']) (undivided_char rfl fun _ => by decide)
      (undivided_char rfl fun _ => by decide)
  have h : Compositional (Undivided 0) (Undivided 1) :=
    { name := TypeName.undivided
      mark := undivided_char rfl (by decide)
      append := undivided_append
      enter := hmono
      join := fun a b ha hb => undivided_append (undivided_append ha hcomma) hb
      bracket := undivided_bracket }
  exact h.chars t

theorem splitFrom_ne_nil (isSep : Char → Bool) (depth : Int) (cs : List Char) :
    splitFrom isSep depth cs ≠ [] := by
  cases cs with
  | nil => simp [splitFrom]
  | cons c cs =>
    rw [splitFrom]
    split
    · simp
    · split <;> simp

theorem splitTopLevel_of_undivided (ha : Undivided 0 a) :
    splitTopLevel (· == ',') a = [trim a] := by
  have hend := ha 0 (by decide) [] [] [] rfl
  rw [List.append_nil] at hend
  rw [splitTopLevel, hend, List.map_singleton]

theorem splitTopLevel_join (ha : Undivided 0 a) (b : List Char) :
    splitTopLevel (· == ',') (a ++ [',', ' '] ++ b) = trim a :: splitTopLevel (· == ',') b := by
  obtain ⟨w, ws, hw⟩ := List.exists_cons_of_ne_nil (splitFrom_ne_nil (· == ',') 0 b)
  have hblank : ∀ c ∈ [' '], isBlank c = true := List.forall_mem_singleton.2 rfl
  have hchar : Undivided 0 [' '] := undivided_char rfl (by decide)
  have hspace : splitFrom (· == ',') 0 (' ' :: b) = (' ' :: w) :: ws :=
    hchar 0 (by decide) b w ws hw
  have hcomma : splitFrom (· == ',') 0 (',' :: ' ' :: b) = [] :: (' ' :: w) :: ws := by
    rw [splitFrom, if_pos ⟨rfl, rfl⟩]
    exact congrArg _ hspace
  have htext : a ++ [',', ' '] ++ b = a ++ ',' :: ' ' :: b := by simp
  rw [htext, splitTopLevel, ha 0 (by decide) _ _ _ hcomma, splitTopLevel, hw, List.append_nil,
    List.map_cons, List.map_cons, List.map_cons]
  exact congrArg (trim a :: · :: ws.map trim) (trim_append hblank w)

theorem splitTopLevel_commaJoined {parts : List (List Char)} (hne : parts ≠ [])
    (h : ∀ p ∈ parts, Undivided 0 p ∧ trim p = p) :
    splitTopLevel (· == ',') (commaJoined parts) = parts := by
  induction parts with
  | nil => exact absurd rfl hne
  | cons p parts ih =>
    obtain ⟨⟨hp, htrim⟩, hparts⟩ := List.forall_mem_cons.1 h
    cases parts with
    | nil => rw [commaJoined_singleton, splitTopLevel_of_undivided hp, htrim]
    | cons q parts =>
      rw [commaJoined_cons_cons, splitTopLevel_join hp, htrim, ih (List.cons_ne_nil q parts) hparts]

theorem withoutMarks_of {marks : List Char} (hmarks : ∀ c ∈ marks, c = '?')
    (hlast : ∀ c ∈ a.getLast?, c ≠ '?') : withoutMarks (a ++ marks) = trim a := by
  have hreverse : ∀ c ∈ marks.reverse, (c == '?') = true := by simpa using hmarks
  have hend : ∀ c ∈ a.reverse.head?, (c == '?') = false := by simpa using hlast
  rw [withoutMarks, dropTrailing, List.reverse_append, List.dropWhile_append_of_pos hreverse,
    dropWhile_eq_self hend, List.reverse_reverse]

theorem unwrap?_bracket (w : String) (x : List Char) :
    unwrap? w (w.toList ++ (['<'] ++ x ++ ['>'])) = some (trim x) := by
  have htext : w.toList ++ (['<'] ++ x ++ ['>']) = (w.toList ++ ['<']) ++ (x ++ ['>']) := by simp
  rw [unwrap?, htext, after?_append, Option.bind_some, if_pos (by simp), List.dropLast_concat]

end Readers

namespace TypeTree
variable (t : TypeTree)

theorem spaced_chars : Spaced t.chars := compositional_spaced.chars t

theorem spaced_core : Spaced t.core := compositional_spaced.core t fun a _ => a.spaced_chars

theorem not_mem_head {c : Char} (h : c ∈ ",<>?{};=".toList) : c ∉ t.head := by
  cases t with
  | named name | applied name => exact name.not_mem h
  | list => exact TypeName.list.not_mem h

theorem ne_mark_of_last : ∀ c ∈ t.core.getLast?, c ≠ '?' := by
  rintro c hc rfl
  rw [core] at hc
  by_cases hne : t.arguments.map chars = []
  · rw [hne, bracketed, if_pos List.isEmpty_nil, List.append_nil] at hc
    exact t.not_mem_head (by decide) (List.mem_of_getLast? hc)
  · rw [bracketed_of_ne_nil hne, ← List.append_assoc, List.getLast?_concat] at hc
    exact absurd hc (by decide)

theorem isMark_nullMark (isNullable : Bool) : ∀ c ∈ nullMark isNullable, c = '?' := by
  cases isNullable with
  | true => simp [nullMark]
  | false => simp [nullMark]

theorem withoutMarks_chars : withoutMarks t.chars = t.core := by
  rw [chars_eq, withoutMarks_of (isMark_nullMark t.isNullable) t.ne_mark_of_last,
    t.spaced_core.trim_eq]

theorem element_chars : element t.chars = t.core := by
  rw [element, t.spaced_chars.trim_eq, withoutMarks_chars]

theorem getLast?_chars : (t.chars.getLast? == some '?') = t.isNullable := by
  rw [chars_eq, nullMark]
  cases t.isNullable with
  | true => simp
  | false =>
    rw [if_neg (by simp), List.append_nil, beq_eq_false_iff_ne]
    exact fun h => t.ne_mark_of_last '?' h rfl

theorem head_eq_of_after? {w inner : List Char} (hw : '<' ∉ w)
    (h : after? (w ++ ['<']) t.core = some inner) : t.head = w ∧ t.arguments ≠ [] := by
  have hhead : '<' ∉ t.head := t.not_mem_head (by decide)
  have htext : t.core = w ++ '<' :: inner := by simpa using after?_eq_some h
  have hne : t.arguments ≠ [] := by
    intro hnil
    have hcore : t.core = t.head := by simp [core, hnil, bracketed]
    exact hhead (by simp [← hcore, htext])
  have hopen : ∀ cs : List Char, '<' ∉ cs → ∀ c ∈ cs, (c == '<') = false := by
    rintro cs hcs c hc
    rw [beq_eq_false_iff_ne]
    exact ne_of_mem_of_not_mem hc hcs
  have hpieces := congrArg (pieces (· == '<')) htext
  simp only [core, bracketed_of_ne_nil (show t.arguments.map chars ≠ [] by simpa using hne),
    List.cons_append, List.nil_append,
    pieces_append (hopen _ hhead) (beq_self_eq_true _), pieces_append (hopen _ hw) (beq_self_eq_true _)] at hpieces
  exact ⟨(List.cons.inj hpieces).1, hne⟩

theorem unwrap?_core {w : String} (hw : '<' ∉ w.toList) :
    unwrap? w t.core =
      if t.head = w.toList ∧ t.arguments ≠ [] then some (commaJoined (t.arguments.map chars))
      else none := by
  split
  · rename_i h
    have hne : t.arguments.map chars ≠ [] := by simpa using h.2
    have hspaced : Spaced (commaJoined (t.arguments.map chars)) :=
      commaJoined_of compositional_spaced.join hne (by simpa using fun a _ => a.spaced_chars)
    rw [core, h.1, bracketed_of_ne_nil hne, unwrap?_bracket, hspaced.trim_eq]
  · rename_i h
    have hnone : after? (w.toList ++ ['<']) t.core = none := by
      by_contra hsome
      obtain ⟨inner, hinner⟩ := Option.ne_none_iff_exists'.1 hsome
      exact h (t.head_eq_of_after? hw hinner)
    rw [unwrap?, hnone, Option.bind_none]

/-- What is read of a type. Of a list and of a map it is what they hold that counts, and a map has
two arguments. -/
def described : TypeTree → TypeRef
  | list element isNullable => ⟨element.core, isNullable, .list⟩
  | t@(applied name _ _ [value] isNullable) =>
    if name.chars = "Map".toList then ⟨value.core, isNullable, .map⟩
    else ⟨t.core, isNullable, .single⟩
  | t => ⟨t.core, t.isNullable, .single⟩

theorem splitTopLevel_arguments (h : t.arguments ≠ []) :
    splitTopLevel (· == ',') (commaJoined (t.arguments.map chars)) = t.arguments.map chars := by
  refine splitTopLevel_commaJoined (by simpa using h) fun p hp => ?_
  obtain ⟨a, -, rfl⟩ := List.mem_map.1 hp
  exact ⟨undivided_type a, a.spaced_chars.trim_eq⟩

theorem parseTypeRef_chars : parseTypeRef (some t.chars) = t.described := by
  have hlist := t.unwrap?_core (w := "List") (by decide)
  have hmap := t.unwrap?_core (w := "Map") (by decide)
  unfold parseTypeRef
  split
  · simp_all
  · exact absurd (Option.some.inj ‹_›) t.spaced_chars.ne_nil
  rename_i type _ htype
  obtain rfl := Option.some.inj htype
  simp only [t.spaced_chars.intersperse_words, t.getLast?_chars, t.withoutMarks_chars]
  cases t with
  | named name isNullable =>
    simp only [arguments, ne_eq, not_true_eq_false, and_false, if_false] at hlist hmap
    simp only [hlist, hmap, Option.map_none]
    rfl
  | list element isNullable =>
    rw [if_pos ⟨rfl, List.cons_ne_nil element []⟩] at hlist
    simp only [hlist, arguments, List.map_singleton, commaJoined_singleton, element_chars]
    rfl
  | applied name hname first others isNullable =>
    rw [if_neg fun h => hname h.1] at hlist
    have hsplit := (applied name hname first others isNullable).splitTopLevel_arguments
      (List.cons_ne_nil first others)
    by_cases hhead : name.chars = "Map".toList
    · rw [if_pos ⟨hhead, List.cons_ne_nil first others⟩] at hmap
      simp only [hlist, hmap, Option.map_some, hsplit]
      rcases others with _ | ⟨value, _ | ⟨other, others⟩⟩
      · rfl
      · simp only [arguments, List.map_cons, List.map_nil, element_chars, described, if_pos hhead]
        rfl
      · rfl
    · rw [if_neg fun h => hhead h.1] at hmap
      simp only [hlist, hmap, Option.map_none]
      rcases others with _ | ⟨value, _ | ⟨other, others⟩⟩
      · rfl
      · rw [described, if_neg hhead]
        rfl
      · rfl

theorem typeArgument?_chars (trailing : List Char) :
    typeArgument? ('<' :: (t.chars ++ '>' :: trailing)) = some (t.chars, trailing) := by
  rw [typeArgument?_of_passed (passed_type t), t.spaced_chars.trim_eq]

/-- A type between brackets is read back whole, whatever follows the brackets, and what is read of
it is what it is. -/
theorem reads_back (trailing : List Char) :
    typeArgument? ('<' :: (t.chars ++ '>' :: trailing)) = some (t.chars, trailing) ∧
      parseTypeRef (some t.chars) = t.described :=
  ⟨t.typeArgument?_chars trailing, t.parseTypeRef_chars⟩

end TypeTree

end KotlinSchema.Source
