import KotlinSchema.Extraction
import KotlinSchema.Proofs.Except
import KotlinSchema.Proofs.Source.Blocks
import KotlinSchema.Proofs.Source.Places
import Mathlib.Data.List.Nodup

/-! When a source cannot be parsed. Only the body of a declaration of the schema can be found to be
open; once it is closed, nothing in it fails. The fault is that of the first such declaration, and
the graph is then left as it was. -/

namespace KotlinSchema
open Text Source

/-- By what a declaration is known: a class and an enum may share a name. -/
def Source.Declaration.key (d : Declaration) : DeclarationKind × String := (d.kind, d.name)

def Descriptor.key : Descriptor → DeclarationKind × String
  | .ofClass c => (.classLike, c.name)
  | .ofEnum e => (.enumLike, e.name)

/-- A declaration whose opening brace is closed nowhere in the code after it. -/
def Source.Declaration.IsOpen (d : Declaration) (source : List Char) : Prop :=
  ¬∃ stop, Closes source d.bodyOffset stop

namespace TypeGraph

def find? (g : TypeGraph) : DeclarationKind × String → Option Descriptor
  | (.classLike, name) => (g.classes.get? name).map .ofClass
  | (.enumLike, name) => (g.enums.get? name).map .ofEnum

theorem find?_add (g : TypeGraph) (x : Descriptor) (k : DeclarationKind × String) :
    (g.add x).find? k = if k = x.key then some x else g.find? k := by
  obtain ⟨kind, name⟩ := k
  cases kind <;> cases x <;> simp only [add, addClass, addEnum, find?, Descriptor.key,
    Table.get?_insert, Prod.mk.injEq, reduceCtorEq, false_and, true_and, if_false] <;>
    split <;> rfl

theorem addAll_cons (g : TypeGraph) (x : Descriptor) (xs : List Descriptor) :
    g.addAll (x :: xs) = (g.add x).addAll xs := rfl

theorem find?_addAll_of_not_mem {g : TypeGraph} {xs : List Descriptor}
    {k : DeclarationKind × String} (h : k ∉ xs.map (·.key)) :
    (g.addAll xs).find? k = g.find? k := by
  induction xs generalizing g with
  | nil => rfl
  | cons x xs ih =>
    simp only [List.map_cons, List.mem_cons, not_or] at h
    rw [addAll_cons, ih h.2, find?_add, if_neg h.1]

theorem find?_addAll_of_mem {g : TypeGraph} {xs : List Descriptor}
    {k : DeclarationKind × String} (h : k ∈ xs.map (·.key)) :
    ∃ x ∈ xs, x.key = k ∧ (g.addAll xs).find? k = some x := by
  induction xs generalizing g with
  | nil => simp at h
  | cons x xs ih =>
    rw [addAll_cons]
    by_cases hk : k ∈ xs.map (·.key)
    · -- A later descriptor of this key replaces the first one.
      obtain ⟨y, hy, hyk, hfind⟩ := ih hk
      exact ⟨y, List.mem_cons_of_mem x hy, hyk, hfind⟩
    · have hx : k = x.key := by simpa [hk] using h
      refine ⟨x, List.mem_cons_self, hx.symm, ?_⟩
      rw [find?_addAll_of_not_mem hk, find?_add, if_pos hx]

theorem run_declareAll (g : TypeGraph) (xs : List Descriptor) :
    ((declareAll xs).run g).2 = g.addAll xs := by
  induction xs generalizing g with
  | nil => rfl
  | cons x xs ih => exact ih (g.add x)

end TypeGraph

section Bodies
variable {source : List Char} {d : Declaration}

theorem parseEntries_of_memberText {body text : List Char} (h : memberText body = .ok text) :
    parseEntries body = .ok ((findAll entryText? (entrySection text)).map entryOf) := by
  rw [parseEntries, h]
  rfl

theorem parseProperties_of_memberText {body text : List Char} (h : memberText body = .ok text) :
    parseProperties body = .ok
      (((findAll propertyText? text).map propertyOf).eraseDupsBy fun p q => p.name == q.name) := by
  rw [parseProperties, h]
  rfl

theorem extract_of_block (hopen : source[d.bodyOffset]? = some '{') {body : List Char}
    (h : block source d.bodyOffset = .ok body) :
    ∃ x, extract source d = .ok x ∧ x.key = d.key := by
  obtain ⟨text, htext⟩ := (maskNested_of_block hopen h (.inr rfl)).1
  rw [extract, h]
  cases hk : d.kind with
  | enumLike =>
    simp only [bind, Except.bind, parseEntries_of_memberText htext]
    exact ⟨_, rfl, by rw [Declaration.key, hk]; rfl⟩
  | classLike =>
    simp only [bind, Except.bind, parseProperties_of_memberText htext]
    exact ⟨_, rfl, by rw [Declaration.key, hk]; rfl⟩

theorem extract_of_error {fault : UnbalancedBlock}
    (h : block source d.bodyOffset = .error fault) : extract source d = .error fault := by
  rw [extract, h]
  rfl

/-- The only fault of a declaration is that its body is open. -/
theorem extract_eq_error_iff (h : (marked source)[d.bodyOffset]? = some ('{', .code))
    (fault : UnbalancedBlock) :
    extract source d = .error fault ↔
      d.IsOpen source ∧ fault = ⟨lineAt source d.bodyOffset⟩ := by
  rw [Declaration.IsOpen, ← blockEnd_eq_error_iff h]
  cases hb : block source d.bodyOffset with
  | error fault' =>
    have hend : blockEnd source d.bodyOffset = .error fault' := by
      rwa [block_eq_map, map_eq_error_iff] at hb
    rw [extract_of_error hb, hend, Except.error.injEq, Except.error.injEq]
  | ok body =>
    obtain ⟨x, hx, -⟩ := extract_of_block (getElem?_of_marked h) hb
    obtain ⟨stop, hend, -⟩ := map_eq_ok_iff.1 (block_eq_map source d.bodyOffset ▸ hb)
    rw [hx, hend]
    simp

theorem key_of_extract (h : (marked source)[d.bodyOffset]? = some ('{', .code)) {x : Descriptor}
    (hx : extract source d = .ok x) : x.key = d.key := by
  cases hb : block source d.bodyOffset with
  | error fault =>
    simp [extract_of_error hb] at hx
  | ok body =>
    obtain ⟨y, hy, hkey⟩ := extract_of_block (getElem?_of_marked h) hb
    obtain rfl : y = x := Except.ok.inj (hy.symm.trans hx)
    exact hkey

end Bodies

/-- The declarations of a source that are added to a graph. -/
def admitted (source : List Char) (origin : Option String) : List Declaration :=
  (scan source origin).filter (·.isAdmitted)

section Sources
variable {source : List Char} {origin : Option String}

theorem brace_of_admitted {d : Declaration} (h : d ∈ admitted source origin) :
    (marked source)[d.bodyOffset]? = some ('{', .code) :=
  brace_of_mem_scan (List.mem_filter.1 h).1

theorem pairwise_scan (source : List Char) (origin : Option String) :
    (scan source origin).Pairwise fun d d' => d.bodyOffset ≤ d'.bodyOffset := by
  have hsorted : ∀ ds : List Declaration,
      (ds.mergeSort fun d d' => d.bodyOffset ≤ d'.bodyOffset).Pairwise
        fun d d' => decide (d.bodyOffset ≤ d'.bodyOffset) :=
    List.pairwise_mergeSort (by grind) (by grind)
  exact (hsorted _).imp of_decide_eq_true

theorem scan_eq_of_perm {ds : List Declaration} (h : (foundDeclarations source origin).Perm ds)
    (hsorted : ds.Pairwise fun d d' => d.bodyOffset < d'.bodyOffset) : scan source origin = ds := by
  have hperm := (perm_scan source origin).trans h
  have hoffsets : (ds.map (·.bodyOffset)).Nodup :=
    List.pairwise_map.2 (hsorted.imp Nat.ne_of_lt)
  refine hperm.eq_of_pairwise (fun a b ha hb hle hge => ?_) (pairwise_scan source origin)
    (hsorted.imp Nat.le_of_lt)
  exact List.inj_on_of_nodup_map hoffsets (hperm.mem_iff.1 ha) hb (Nat.le_antisymm hle hge)

theorem describe_of_admitted {d : Declaration} (h : d.isAdmitted = true) :
    describe source d = (extract source d).map some := by
  rw [describe, if_pos h]

theorem describe_of_not_admitted {d : Declaration} (h : d.isAdmitted = false) :
    describe source d = .ok none := by
  rw [describe, if_neg (by simp [h])]

theorem descriptors_eq (source : List Char) (origin : Option String) :
    descriptors source origin = (admitted source origin).mapM (extract source) := by
  rw [descriptors, admitted]
  induction scan source origin with
  | nil => rfl
  | cons d ds ih =>
    rw [List.filter_cons]
    cases hd : d.isAdmitted with
    | false =>
      rw [if_neg (by simp), ← ih, mapM_cons_ok (describe_of_not_admitted hd)]
      cases ds.mapM (describe source) <;> rfl
    | true =>
      rw [if_pos rfl]
      have hdescribe : describe source d = (extract source d).map some := describe_of_admitted hd
      cases hx : extract source d with
      | error fault =>
        rw [hx] at hdescribe
        rw [mapM_cons_error hx, mapM_cons_error hdescribe]
        rfl
      | ok x =>
        rw [hx] at hdescribe
        rw [mapM_cons_ok hx, ← ih, mapM_cons_ok hdescribe]
        cases ds.mapM (describe source) <;> rfl

theorem first_open_of_error {fault : UnbalancedBlock}
    (h : descriptors source origin = .error fault) :
    ∃ d ∈ admitted source origin, d.IsOpen source ∧ fault = ⟨lineAt source d.bodyOffset⟩ ∧
      ∀ d' ∈ admitted source origin, d'.IsOpen source → d.bodyOffset ≤ d'.bodyOffset := by
  rw [descriptors_eq] at h
  obtain ⟨before, d, after, hsplit, hbefore, hd⟩ := mapM_eq_error h
  have brace : ∀ d' ∈ before ++ d :: after,
      (marked source)[d'.bodyOffset]? = some ('{', .code) :=
    fun d' hd' => brace_of_admitted (hsplit ▸ hd')
  obtain ⟨hopen, hfault⟩ := (extract_eq_error_iff (brace d (by simp)) fault).1 hd
  refine ⟨d, by simp [hsplit], hopen, hfault, fun d' hd' hopen' => ?_⟩
  -- Those before it are closed, and those after it begin later.
  have hsorted := (pairwise_scan source origin).filter (·.isAdmitted)
  rw [← admitted, hsplit, List.pairwise_append, List.pairwise_cons] at hsorted
  rw [hsplit, List.mem_append, List.mem_cons] at hd'
  rcases hd' with hd' | rfl | hd'
  · obtain ⟨x, hx⟩ := hbefore d' hd'
    have herror := (extract_eq_error_iff (brace d' (by simp [hd'])) _).2 ⟨hopen', rfl⟩
    simp [hx] at herror
  · exact Nat.le_refl _
  · exact hsorted.2.1.1 d' hd'

theorem not_isOpen_of_ok {found : List Descriptor} (h : descriptors source origin = .ok found)
    {d : Declaration} (hd : d ∈ admitted source origin) : ¬d.IsOpen source := by
  intro hopen
  rw [descriptors_eq] at h
  obtain ⟨x, -, hx⟩ := exists_of_forall₂ (forall₂_of_mapM h) hd
  have herror := (extract_eq_error_iff (brace_of_admitted hd) _).2 ⟨hopen, rfl⟩
  simp [hx] at herror

end Sources

namespace TypeGraph
variable {source : List Char} {origin : Option String}

theorem run_parse_of_error (g : TypeGraph) {fault : UnbalancedBlock}
    (h : descriptors source origin = .error fault) :
    (parse source origin).run.run g = (.error fault, g) := by
  rw [parse, h]
  rfl

theorem run_parse_of_ok (g : TypeGraph) {found : List Descriptor}
    (h : descriptors source origin = .ok found) :
    ∃ notices, (parse source origin).run.run g = (.ok notices, g.addAll found) := by
  rw [parse, h, ← run_declareAll]
  exact ⟨_, rfl⟩

theorem descriptors_of_parse_error {g : TypeGraph} {fault : UnbalancedBlock}
    (h : ((parse source origin).run.run g).1 = .error fault) :
    descriptors source origin = .error fault := by
  cases hd : descriptors source origin with
  | error fault' =>
    rw [run_parse_of_error g hd] at h
    exact congrArg Except.error (Except.error.inj h)
  | ok found =>
    obtain ⟨notices, hrun⟩ := run_parse_of_ok g hd
    rw [hrun] at h
    exact absurd h (by simp)

theorem descriptors_of_parse_ok {g : TypeGraph} {notices : List Notice}
    (h : ((parse source origin).run.run g).1 = .ok notices) :
    ∃ found, descriptors source origin = .ok found := by
  cases hd : descriptors source origin with
  | error fault =>
    rw [run_parse_of_error g hd] at h
    exact absurd h (by simp)
  | ok found => exact ⟨found, rfl⟩

theorem forall₂_descriptors {found : List Descriptor}
    (h : descriptors source origin = .ok found) :
    List.Forall₂ (fun d x => extract source d = .ok x ∧ x.key = d.key)
      (admitted source origin) found := by
  rw [descriptors_eq] at h
  have hbrace := (List.forall₂_and_left _ found).2
    ⟨fun d hd => brace_of_admitted hd, forall₂_of_mapM h⟩
  exact hbrace.imp fun d x hx => ⟨hx.2, key_of_extract hx.1 hx.2⟩

/-- A source is added as a whole or not at all. It fails if and only if a declaration of the schema
is open, with the line of the first one's brace, and the graph is then as it was; else the graph has
all these declarations. Matched braces are enough for the body of a declaration: blanking the blocks
in it never fails. -/
theorem parse_all_or_nothing (g : TypeGraph) (source : List Char) (origin : Option String) :
    let run : Except UnbalancedBlock (List Notice) × TypeGraph := (parse source origin).run.run g
    ((∃ fault, run.1 = .error fault) ↔ ∃ d ∈ admitted source origin, d.IsOpen source) ∧
    (∀ fault, run.1 = .error fault → run.2 = g ∧
      ∃ d ∈ admitted source origin, d.IsOpen source ∧ fault = ⟨lineAt source d.bodyOffset⟩ ∧
        ∀ d' ∈ admitted source origin, d'.IsOpen source → d.bodyOffset ≤ d'.bodyOffset) ∧
    (∀ notices, run.1 = .ok notices → ∃ found, run.2 = g.addAll found ∧
      List.Forall₂ (fun d x => extract source d = .ok x ∧ x.key = d.key)
        (admitted source origin) found ∧
      ∀ d ∈ admitted source origin, ∃ x ∈ found, x.key = d.key ∧ run.2.find? d.key = some x) ∧
    ∀ offset body, source[offset]? = some '{' → block source offset = .ok body →
      ∀ text, text = body ∨ text = mask true body →
        (∃ blanked, maskNested text = .ok blanked) ∧
        ∀ i, (marked text)[i]? = some ('{', .code) → ∃ stop, blockEnd text i = .ok stop := by
  intro run
  refine ⟨⟨?_, ?_⟩, ?_, ?_, fun offset body hopen hb text htext =>
    maskNested_of_block hopen hb htext⟩
  · rintro ⟨fault, hfault⟩
    obtain ⟨d, hd, hopen, -⟩ := first_open_of_error (descriptors_of_parse_error hfault)
    exact ⟨d, hd, hopen⟩
  · rintro ⟨d, hd, hopen⟩
    cases h : descriptors source origin with
    | error fault => exact ⟨fault, congrArg Prod.fst (run_parse_of_error g h)⟩
    | ok found => exact absurd hopen (not_isOpen_of_ok h hd)
  · intro fault hfault
    have h := descriptors_of_parse_error hfault
    exact ⟨congrArg Prod.snd (run_parse_of_error g h), first_open_of_error h⟩
  · intro notices hnotices
    obtain ⟨found, h⟩ := descriptors_of_parse_ok hnotices
    obtain ⟨notices', hrun⟩ := run_parse_of_ok g h
    have hafter : run.2 = g.addAll found := congrArg Prod.snd hrun
    refine ⟨found, hafter, forall₂_descriptors h, fun d hd => ?_⟩
    obtain ⟨x, hx, -, hkey⟩ := exists_of_forall₂ (forall₂_descriptors h) hd
    rw [hafter]
    exact find?_addAll_of_mem (List.mem_map.2 ⟨x, hx, hkey⟩)

/-- The brace in the comment closes nothing. -/
example : ((parse "class A : Base() \x7b // \x7d\n".toList none).run.run .empty).1 =
    .error ⟨1⟩ := by decide +kernel

end TypeGraph

end KotlinSchema
