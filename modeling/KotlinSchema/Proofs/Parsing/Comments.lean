import KotlinSchema.Proofs.Parsing.Faults

/-! Comments are inert: a source without them declares what the source declares, however often it is
read again from places inside of it. For headers the contents of literals are inert as well. -/

namespace KotlinSchema
open Text Source

section Bodies
variable {source : List Char} {d : Declaration}

theorem parseProperties_mask (body : List Char) :
    parseProperties (mask true body) = parseProperties body := by
  rw [parseProperties, memberText_mask, parseProperties]

theorem parseEntries_mask (body : List Char) :
    parseEntries (mask true body) = parseEntries body := by
  rw [parseEntries, memberText_mask, parseEntries]

theorem extract_mask (h : (marked source)[d.bodyOffset]? = some ('{', .code)) :
    extract (mask true source) d = extract source d := by
  -- The bodies differ in their comments, which are blanked before members are read.
  rw [extract, extract, block_mask h]
  cases block source d.bodyOffset with
  | error fault => rfl
  | ok body =>
    simp only [Except.map, bind, Except.bind, parseProperties_mask, parseEntries_mask]

end Bodies

/-- What is read of a declaration from its header alone. -/
def Source.Declaration.heading (d : Declaration) :
    DeclarationKind × String × Nat × Nat × Option Modifier × Option String :=
  (d.kind, d.name, d.bodyOffset, d.line, d.modifier, d.supertype)

theorem scan_mask (source : List Char) (origin : Option String) :
    scan (mask true source) origin = scan source origin := by
  simp only [scan, mask_mask, Bool.and_self, Bool.and_false]

theorem heading_declarationOf (keep : Bool) (code source : List Char) (origin : Option String)
    (found : AnnotatedHeader) :
    (declarationOf code (mask keep source) origin found).heading =
      (declarationOf code source origin found).heading := by
  simp only [declarationOf, Declaration.heading, lineAt_mask]

theorem heading_scan_mask (source : List Char) (origin : Option String) :
    (scan (mask false source) origin).map (·.heading) = (scan source origin).map (·.heading) := by
  have hsort : ∀ ds : List Declaration,
      (ds.mergeSort fun d d' => d.bodyOffset ≤ d'.bodyOffset).map (·.heading) =
        (ds.map (·.heading)).mergeSort fun h h' => h.2.2.1 ≤ h'.2.2.1 :=
    fun _ => List.map_mergeSort fun _ _ _ _ => rfl
  have hfound : ∀ keep, Declaration.heading ∘ declarationOf (mask false source)
      (mask keep source) origin = Declaration.heading ∘ declarationOf (mask false source) source
        origin :=
    fun keep => funext (heading_declarationOf keep _ source origin)
  simp only [scan, hsort, List.map_append, List.map_map, mask_mask, Bool.and_self, Bool.and_true]
  rw [hfound false, hfound true]

theorem descriptors_mask (source : List Char) (origin : Option String) :
    descriptors (mask true source) origin = descriptors source origin := by
  rw [descriptors_eq, descriptors_eq, admitted, scan_mask, ← admitted]
  exact mapM_congr fun d hd => extract_mask (brace_of_admitted hd)

namespace TypeGraph

/-- A source without its comments comes to what the source comes to, over every graph, which a fault
leaves as it was; and the same declarations are found in it. Without the contents of its literals
the same headers are found in it. -/
theorem parse_mask (source : List Char) (origin : Option String) :
    (∀ g : TypeGraph, (parse (mask true source) origin).run.run g =
      (parse source origin).run.run g) ∧
    (∀ (g : TypeGraph) (fault : UnbalancedBlock),
      ((parse source origin).run.run g).1 = .error fault →
        ((parse source origin).run.run g).2 = g) ∧
    scan (mask true source) origin = scan source origin ∧
    (scan (mask false source) origin).map (·.heading) =
      (scan source origin).map (·.heading) := by
  refine ⟨fun g => ?_, fun g fault hfault => ?_, scan_mask source origin,
    heading_scan_mask source origin⟩
  · rw [parse, descriptors_mask, ← parse]
  · rw [run_parse_of_error g (descriptors_of_parse_error hfault)]

end TypeGraph

end KotlinSchema
