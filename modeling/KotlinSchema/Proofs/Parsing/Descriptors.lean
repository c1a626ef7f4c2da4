import KotlinSchema.Proofs.Parsing.Attribution

/-! What is described: the descriptor of a declaration is made of its header and of the members read
in its text, and of nothing else. -/

namespace KotlinSchema
open Text Source

namespace Source.Declaration

def propertiesIn (text : List Char) : List Property :=
  ((findAll propertyText? text).map propertyOf).eraseDupsBy fun p q => p.name == q.name

/-- The class that a declaration describes, given the text in which its members are read. -/
def classOf (d : Declaration) (text : List Char) : ClassType where
  name := d.name
  doc := Tag.doc? d.annotations
  properties := propertiesIn text
  isSealed := d.modifier.isSome
  parent := if d.supertype = some rootSupertype then none else d.supertype

def enumOf (d : Declaration) (text : List Char) : EnumType where
  name := d.name
  doc := Tag.doc? d.annotations
  entries := (findAll entryText? (entrySection text)).map entryOf
  isOrderSensitive := (Tag.find? d.annotations Tag.orderSensitiveName).isSome

def descriptorOf (d : Declaration) (text : List Char) : Descriptor :=
  match d.kind with
  | .classLike => .ofClass (d.classOf text)
  | .enumLike => .ofEnum (d.enumOf text)

variable {source : List Char} {d : Declaration} {x : Descriptor} {c : ClassType}

theorem extract_eq (source : List Char) (d : Declaration) :
    extract source d = (d.text source).map d.descriptorOf := by
  rw [extract, text]
  cases block source d.bodyOffset with
  | error fault => rfl
  | ok body =>
    cases hkind : d.kind with
    | classLike =>
      simp only [bind, Except.bind, parseProperties]
      cases memberText body with
      | error fault => rfl
      | ok text => simp only [Except.map, descriptorOf, hkind]; rfl
    | enumLike =>
      simp only [bind, Except.bind, parseEntries]
      cases memberText body with
      | error fault => rfl
      | ok text => simp only [Except.map, descriptorOf, hkind]; rfl

theorem exists_of_extract_class (h : extract source d = .ok (.ofClass c)) :
    d.kind = .classLike ∧ ∃ text, d.text source = .ok text ∧ c = d.classOf text := by
  rw [extract_eq, map_eq_ok_iff] at h
  obtain ⟨text, htext, h⟩ := h
  rw [descriptorOf] at h
  split at h
  · rename_i hkind
    exact ⟨hkind, text, htext, (Descriptor.ofClass.inj h).symm⟩
  · simp at h

end Source.Declaration

theorem exists_of_mem_descriptors {source : List Char} {origin : Option String}
    {found : List Descriptor} {x : Descriptor} (h : descriptors source origin = .ok found)
    (hx : x ∈ found) : ∃ d ∈ admitted source origin, extract source d = .ok x := by
  rw [descriptors_eq] at h
  exact exists_of_forall₂ (forall₂_of_mapM h).flip hx

end KotlinSchema
