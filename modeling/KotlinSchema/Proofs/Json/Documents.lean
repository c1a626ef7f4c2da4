import KotlinSchema.Extraction
import KotlinSchema.Proofs.Canonical.Masks
import KotlinSchema.Proofs.Json.Pieces
import KotlinSchema.Proofs.Source.Places

/-! The text of a document, read as source text. Its strings are literals, whatever they hold, and
what stands between them has no letter `c`; so no header is found in it. -/

namespace KotlinSchema.Json
open Text Source Canonical

/-- A text is read from code to code, whatever follows, without the letter that the keyword of a
class begins with; and it has no carriage return, which would not be read back as it was written. -/
structure Undeclaring (a : List Char) : Prop where
  reads : ∀ rest, rest.head? ≠ some '"' →
    ∃ ms, mark .code (a ++ rest) = ms ++ mark .code rest ∧ ('c', .code) ∉ ms
  noReturn : '\r' ∉ a

section Pieces
variable {a b : List Char} {c : Char}

theorem isPlain_of_isMark (h : isMark c = true) : isPlain c = true ∧ c ≠ 'c' ∧ c ≠ '\r' := by
  rw [isPlain_iff]
  refine ⟨⟨?_, ?_, ?_⟩, ?_, ?_⟩ <;> rintro rfl <;> exact absurd h (by decide)

theorem undeclaring_nil : Undeclaring [] where
  reads _ _ := ⟨[], rfl, by simp⟩
  noReturn := by simp

theorem undeclaring_mark (hc : isMark c = true) (hb : Undeclaring b) : Undeclaring (c :: b) := by
  obtain ⟨hplain, hletter, hreturn⟩ := isPlain_of_isMark hc
  refine ⟨fun rest hrest => ?_, by simp [Ne.symm hreturn, hb.noReturn]⟩
  obtain ⟨ms, hms, hothers⟩ := hb.reads rest hrest
  have hread := mark_of_isPlain (List.forall_mem_singleton.2 hplain) (b ++ rest)
  refine ⟨(c, .code) :: ms, ?_, by simp [Ne.symm hletter, hothers]⟩
  rw [List.cons_append, ← List.singleton_append, hread, hms]
  rfl

theorem undeclaring_append (ha : Undeclaring a) (hhead : b.head? ≠ some '"')
    (hb : Undeclaring b) : Undeclaring (a ++ b) where
  reads rest hrest := by
    have hnext : (b ++ rest).head? ≠ some '"' := by
      cases b with
      | nil => exact hrest
      | cons c b => exact hhead
    obtain ⟨ms, hms, hletter⟩ := hb.reads rest hrest
    obtain ⟨ns, hns, hletter'⟩ := ha.reads (b ++ rest) hnext
    refine ⟨ns ++ ms, by rw [List.append_assoc, hns, hms, List.append_assoc], ?_⟩
    simp [hletter, hletter']
  noReturn := by simp [ha.noReturn, hb.noReturn]

theorem undeclaring_string (s : String) : Undeclaring (stringText s) where
  reads rest hrest := ⟨_, mark_quoted (quotable_escaped s.toList) hrest, by simp⟩
  noReturn hreturn := absurd (isControl_of_mem_stringText hreturn) (by decide)

/-- Text that is put together from marks and strings declares nothing, whatever the strings hold. -/
theorem Printed.undeclaring (h : Printed a) : Undeclaring a := by
  induction h with
  | nil => exact undeclaring_nil
  | mark hc _ ih => exact undeclaring_mark hc ih
  | string s hhead _ ih => exact undeclaring_append (undeclaring_string s) hhead ih

end Pieces

theorem undeclaring_render (document : Json) : Undeclaring document.render.toList :=
  (printed_render document).undeclaring

theorem findAll_eq_nil {header? : List Char → Option Header} {cs : List Char}
    (hs : ∀ cs h, header? cs = some h → h.Spelled cs) (hletter : 'c' ∉ cs) :
    findAll (fun _ => annotatedHeader? header?) cs = [] := by
  refine List.eq_nil_iff_forall_not_mem.2 fun found hfound => hletter ?_
  obtain ⟨-, place, rest, hplace, hread⟩ := mem_findFrom hfound
  obtain ⟨stop, hstop, hread⟩ := List.exists_of_findSome?_eq_some hread
  obtain ⟨header, hheader, -⟩ := Option.map_eq_some_iff.1 hread
  obtain ⟨start, gap, -, hkeyword⟩ := (hs stop header hheader).keyword
  have hmem : 'c' ∈ stop := by simp [hkeyword]
  exact ((annotationStops_suffix hstop).trans hplace).subset hmem

theorem scan_of_undeclaring {source : List Char} (h : Undeclaring source)
    (origin : Option String) : scan source origin = [] := by
  obtain ⟨ms, hms, hletter⟩ := h.reads [] (by simp)
  have hmarked : marked source = ms := by simpa [marked] using hms
  have hmask : 'c' ∉ mask false source := by
    intro hmem
    obtain ⟨i, hi⟩ := List.mem_iff_getElem?.1 hmem
    refine hletter (hmarked ▸ List.mem_iff_getElem?.2 ⟨i, ?_⟩)
    exact marked_of_mask (by decide) (by decide) hi
  simp [scan, findAll_eq_nil (fun _ _ hh => (spelled_of_enumHeader? hh).1) hmask,
    findAll_eq_nil (fun _ _ hh => (spelled_of_classHeader? hh).1) hmask]

theorem descriptors_render (document : Json) (origin : Option String) :
    descriptors document.render.toList origin = .ok [] := by
  rw [descriptors, scan_of_undeclaring (undeclaring_render document)]
  rfl

end KotlinSchema.Json
