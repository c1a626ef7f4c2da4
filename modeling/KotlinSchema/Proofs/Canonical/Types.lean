import KotlinSchema.Proofs.Canonical.Keywords
import KotlinSchema.Proofs.Source.Bodies
import KotlinSchema.Proofs.Source.TypeTrees

/-! How written types and default values are read. -/

namespace KotlinSchema.Canonical
open Text Source

section Trees

def Identifier.typeName (i : Identifier) : TypeName where
  chars := i.chars
  ne_nil := i.ne_nil
  isPlain c hc := by
    have hplain : (",<>?{};=".toList.all fun c => !Text.isWord c) = true := by decide
    refine ⟨not_isBlank_of_isWord (i.isWord c hc), fun hmem => ?_⟩
    exact absurd (i.isWord c hc) (by simpa using List.all_eq_true.1 hplain c hmem)

def Element.tree (isNullable : Bool) : Element → TypeTree
  | plain name => .named name.typeName isNullable
  | traceable name =>
    .applied (Identifier.of "TraceableEnum" rfl).typeName
      (by simp [Identifier.of, Identifier.typeName]) (.named name.typeName false) [] isNullable

def TypeExpr.tree (t : TypeExpr) : TypeTree :=
  match t.shape with
  | .single => t.element.tree t.isNullable
  | .list => .list (t.element.tree false) t.isNullable
  | .map =>
    .applied (Identifier.of "Map" rfl).typeName (by simp [Identifier.of, Identifier.typeName])
      (.named (Identifier.of "String" rfl).typeName false) [t.element.tree false] t.isNullable

theorem bracket_eq {a w x : List Char} (h : a = w ++ ['<']) :
    a ++ x ++ ['>'] = w ++ (['<'] ++ x ++ ['>']) := by
  subst h
  simp

theorem traceable_chars (name : Identifier) : (Element.traceable name).chars =
    "TraceableEnum".toList ++ (['<'] ++ name.chars ++ ['>']) := bracket_eq rfl

theorem Element.core_tree (e : Element) (isNullable : Bool) :
    (e.tree isNullable).core = e.chars := by
  cases e with
  | plain name => exact List.append_nil name.chars
  | traceable name =>
    have hinner : (TypeTree.named name.typeName false).chars = name.chars := by
      simp [TypeTree.chars, bracketed, nullMark, Identifier.typeName]
    rw [traceable_chars, ← commaJoined_singleton name.chars, ← hinner]
    rfl

theorem Element.isNullable_tree (e : Element) (isNullable : Bool) :
    (e.tree isNullable).isNullable = isNullable := by
  cases e with
  | plain | traceable => rfl

theorem Element.described_tree (e : Element) (isNullable : Bool) :
    (e.tree isNullable).described = ⟨(e.tree isNullable).core, isNullable, .single⟩ := by
  cases e with
  | plain | traceable => rfl

theorem Element.chars_tree (e : Element) : (e.tree false).chars = e.chars := by
  rw [TypeTree.chars_eq, core_tree, isNullable_tree]
  exact List.append_nil _

variable (t : TypeExpr)

theorem TypeExpr.core_tree : t.tree.core = t.core := by
  obtain ⟨shape, e, isNullable⟩ := t
  cases shape with
  | single => exact e.core_tree isNullable
  | list =>
    simp [tree, core, TypeTree.core, TypeTree.head, TypeTree.arguments, bracketed, commaJoined,
      e.chars_tree]
  | map =>
    simp [tree, core, TypeTree.core, TypeTree.head, TypeTree.arguments, TypeTree.chars, bracketed,
      commaJoined, nullMark, e.chars_tree, Identifier.typeName, Identifier.of]

theorem TypeExpr.isNullable_tree : t.tree.isNullable = t.isNullable := by
  obtain ⟨shape, e, isNullable⟩ := t
  cases shape with
  | single => exact e.isNullable_tree isNullable
  | list | map => rfl

theorem TypeExpr.chars_tree : t.tree.chars = t.chars := by
  rw [TypeTree.chars_eq, core_tree, isNullable_tree, TypeExpr.chars, mark, nullMark]

theorem parseTypeRef_chars :
    parseTypeRef (some t.chars) = ⟨t.element.chars, t.isNullable, t.shape⟩ := by
  rw [← t.chars_tree, TypeTree.parseTypeRef_chars]
  obtain ⟨shape, e, isNullable⟩ := t
  rw [TypeExpr.tree]
  cases shape with
  | single => simp only [e.described_tree, e.core_tree]
  | list => simp only [TypeTree.described, e.core_tree]
  | map => simp only [TypeTree.described, e.core_tree, Identifier.of, Identifier.typeName, if_true]

theorem typeArgument?_chars (rest : List Char) :
    typeArgument? ('<' :: (t.chars ++ '>' :: rest)) = some (t.chars, rest) := by
  rw [← t.chars_tree]
  exact t.tree.typeArgument?_chars rest

end Trees

section Calls

theorem closingOffset?_append {opening closing : Char} {ms : List Marked}
    (h : ∀ m ∈ ms, m ≠ (opening, .code) ∧ m ≠ (closing, .code)) (depth : Int) (ns : List Marked) :
    closingOffset? opening closing depth (ms ++ ns) =
      (closingOffset? opening closing depth ns).map (· + ms.length) := by
  induction ms with
  | nil => simp
  | cons m ms ih =>
    obtain ⟨hopen, hclose⟩ := h m List.mem_cons_self
    have hchange : depthChange opening closing m = 0 := by
      obtain ⟨c, r⟩ := m
      cases r <;> simp_all [depthChange]
    rw [List.cons_append, closingOffset?_of_not_closes fun hm => hclose hm.1, hchange, Int.add_zero,
      ih fun n hn => h n (List.mem_cons_of_mem m hn), Option.map_map]
    rfl

/-- In code a text leaves the depth of parentheses as it is, and closes none of those around it. -/
def Level (cs : List Char) : Prop :=
  ∀ depth : Int, 1 ≤ depth → ∀ ms, closingOffset? '(' ')' depth (cs.map (·, .code) ++ ms) =
    (closingOffset? '(' ')' depth ms).map (· + cs.length)

theorem level_append {a b : List Char} (ha : Level a) (hb : Level b) : Level (a ++ b) := by
  intro depth hdepth ms
  rw [List.map_append, List.append_assoc, ha depth hdepth, hb depth hdepth, Option.map_map]
  congr 1
  funext k
  simp only [Function.comp, List.length_append]
  omega

theorem level_of_forall {a : List Char} (h : ∀ c ∈ a, c ≠ '(' ∧ c ≠ ')') : Level a := by
  intro depth _ ms
  rw [closingOffset?_append, List.length_map]
  simpa using h

theorem level_group {a : List Char} (ha : Level a) : Level (['('] ++ a ++ [')']) := by
  intro depth hdepth ms
  have hopen : depthChange '(' ')' ('(', .code) = 1 := rfl
  have hclose : depthChange '(' ')' (')', .code) = -1 := rfl
  rw [List.map_append, List.map_append, List.map_singleton, List.map_singleton, List.append_assoc,
    List.append_assoc, List.singleton_append, List.singleton_append,
    closingOffset?_of_not_closes (by simp), hopen, ha _ (by omega),
    closingOffset?_of_not_closes (by rw [hclose]; simp; omega), hclose, Int.add_assoc,
    Int.add_right_neg, Int.add_zero, Option.map_map, Option.map_map]
  congr 1
  funext k
  simp only [Function.comp, List.length_append, List.length_singleton]
  omega

theorem level_balanced {cs : List Char} (h : Balanced cs) : Level cs := by
  induction h with
  | nil => exact level_of_forall (by simp)
  | @cons c cs hc _ ih =>
    refine level_append (level_of_forall (List.forall_mem_singleton.2 ⟨?_, ?_⟩)) ih
    · rintro rfl
      exact absurd hc (by decide)
    · rintro rfl
      exact absurd hc (by decide)
  | group _ _ ihInner ih => exact level_append (level_group ihInner) ih

theorem level_arguments (p : Property) : Level p.arguments := by
  rw [Property.arguments]
  cases p.default? with
  | none => exact level_of_forall (by simp)
  | some d =>
    have hname : ("default = ".toList.all fun c => c != '(' && c != ')') = true := rfl
    refine level_append (level_of_forall fun c hc => ?_) (level_balanced d.balanced)
    simpa using List.all_eq_true.1 hname c hc

theorem arguments?_call (p : Property) (rest : List Char) :
    arguments? (['('] ++ p.arguments ++ [')'] ++ rest) = some p.arguments := by
  have hplain : ∀ c ∈ ['('] ++ p.arguments ++ [')'], isPlain c = true :=
    plain_of_inert (inert_append (inert_append (inert_of_all rfl) (inert_arguments p))
      (inert_of_all rfl))
  have hclosing : closingOffset? '(' ')' 0 (marked (['('] ++ p.arguments ++ [')'] ++ rest)) =
      some (p.arguments.length + 1) := by
    have hopen : depthChange '(' ')' ('(', .code) = 1 := rfl
    have hclose : depthChange '(' ')' (')', .code) = -1 := rfl
    rw [marked, mark_of_isPlain hplain, List.map_append, List.map_append, List.map_singleton,
      List.map_singleton, List.append_assoc, List.append_assoc, List.singleton_append,
      List.singleton_append, closingOffset?_of_not_closes (by simp), hopen,
      level_arguments p _ (by decide), closingOffset?_of_closes rfl (by rw [hclose]; rfl)]
    simp
  have htext : ['('] ++ p.arguments ++ [')'] ++ rest = '(' :: (p.arguments ++ ')' :: rest) := by
    simp
  rw [htext] at hclosing ⊢
  simp [arguments?, hclosing]

theorem default_eq {a w x : List Char} (h : a = w ++ [' ', '=', ' ']) :
    a ++ x = w ++ ' ' :: '=' :: ' ' :: x := by
  subst h
  simp

theorem defaultText?_arguments (p : Property) :
    defaultText? p.arguments = p.default?.map (·.chars) := by
  rw [Property.arguments]
  cases p.default? with
  | none => rfl
  | some d =>
    have htext : "default = ".toList ++ d.chars =
        "default".toList ++ ' ' :: '=' :: ' ' :: d.chars := default_eq rfl
    have hsolid := solid_balanced d.balanced
    have hvalue : skipBlanks (' ' :: d.chars) = d.chars := by
      rw [show ' ' :: d.chars = [' '] ++ d.chars from rfl,
        skipBlanks_append (List.forall_mem_singleton.2 rfl),
        skipBlanks_eq_self fun c hc => hsolid c (List.mem_of_mem_head? hc)]
    have htrim : trim ("default".toList ++ ' ' :: '=' :: ' ' :: d.chars) =
        "default".toList ++ ' ' :: '=' :: ' ' :: d.chars :=
      trim_between (solid_of_all rfl) (by decide) [' ', '=', ' '] hsolid
        d.ne_nil
    have hne : "default".toList ++ ' ' :: '=' :: ' ' :: d.chars ≠ [] :=
      List.append_ne_nil_of_right_ne_nil _ (by simp)
    change defaultText? ("default = ".toList ++ d.chars) = some d.chars
    rw [htext, defaultText?, htrim]
    split
    · exact absurd ‹_› hne
    · have hsign : after? ['='] (skipBlanks (' ' :: '=' :: ' ' :: d.chars)) = some (' ' :: d.chars) :=
        rfl
      simp only [after?_append, Option.bind_eq_bind, Option.bind_some, hsign, hvalue]
      rfl

end Calls

end KotlinSchema.Canonical
