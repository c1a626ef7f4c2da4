import KotlinSchema.Workspace.Files

/-! What a file system does, told by what stands at its places. Several paths may lead to one place,
and one path to several places if these are names of one file. -/

namespace KotlinSchema

/-- Whether a path is passed on the way that another one takes. -/
def Path.IsOnWay (q p : Path) : Prop := q.anchor = p.anchor ∧ q.parts <+: p.parts

theorem Path.isOnWay_refl (p : Path) : p.IsOnWay p := ⟨rfl, List.prefix_refl _⟩

theorem Path.IsOnWay.of_parent {p q : Path} (h : q.IsOnWay p.parent) : q.IsOnWay p :=
  ⟨h.1, h.2.trans (List.dropLast_prefix _)⟩

/-- What stands at each place, and to which places a path leads. -/
structure View (σ π : Type) where
  node? : σ → π → Option Node
  Leads : σ → Path → π → Prop

namespace View
variable {σ φ π : Type} (view : View σ π) (p : Path)

/-- Nothing is lost, and what is added are directories on the way to a path. -/
structure MakesWay (before after : σ) : Prop where
  leads : ∀ q place, view.Leads before q place → view.Leads after q place
  keeps : ∀ place node, view.node? before place = some node → view.node? after place = some node
  adds : ∀ place node, view.node? before place = none → view.node? after place = some node →
    node = .directory ∧ ∃ q : Path, q.IsOnWay p ∧ view.Leads after q place

/-- Nothing is changed but what a path leads to. -/
structure Spares (before after : σ) : Prop where
  leads : ∀ q place, view.Leads before q place → view.Leads after q place
  frame : ∀ place, ¬view.Leads after p place → view.node? after place = view.node? before place

/-- A file, which was no directory before, stands where a path leads, and nothing else is
changed. -/
structure Fills (content : List UInt8) (before after : σ) : Prop extends
    Spares view p before after where
  exists_leads : ∃ place, view.Leads after p place
  file : ∀ place, view.Leads after p place → view.node? after place = some (.file content)
  no_directory : ∀ place, view.Leads after p place → view.node? before place ≠ some .directory

/-- The file system does what it is asked for and nothing else. Where making directories fails, some
of them may be there; where writing breaks off, anything may stand where the path leads. -/
structure Lawful [FileSystem σ φ] : Prop where
  makesWay : ∀ (s : σ) (p : Path), view.MakesWay p s (FileSystem.makeDirectories s p).1
  fills : ∀ (s : σ) (p : Path) (content : List UInt8) (after : σ),
    FileSystem.write s p content = .done after → view.Fills p content s after
  spares : ∀ (s : σ) (p : Path) (content : List UInt8) (after : σ) (fault : φ),
    FileSystem.write s p content = .brokenOff after fault → view.Spares p s after

variable {view p}

namespace MakesWay
variable {s s' s'' : σ}

theorem refl (s : σ) : view.MakesWay p s s where
  leads _ _ h := h
  keeps _ _ h := h
  adds _ _ h h' := by simp [h] at h'

theorem trans (h : view.MakesWay p s s') (h' : view.MakesWay p s' s'') :
    view.MakesWay p s s'' where
  leads q place hq := h'.leads q place (h.leads q place hq)
  keeps place node hs := h'.keeps place node (h.keeps place node hs)
  adds place node hs hs'' := by
    cases hs' : view.node? s' place with
    | none => exact h'.adds place node hs' hs''
    | some node' =>
      obtain rfl : node' = node := Option.some.inj ((h'.keeps place node' hs').symm.trans hs'')
      obtain ⟨hnode, q, hq, hleads⟩ := h.adds place node' hs hs'
      exact ⟨hnode, q, hq, h'.leads q place hleads⟩

theorem of_parent (h : view.MakesWay p.parent s s') : view.MakesWay p s s' where
  leads := h.leads
  keeps := h.keeps
  adds place node hs hs' := by
    obtain ⟨hnode, q, hq, hleads⟩ := h.adds place node hs hs'
    exact ⟨hnode, q, hq.of_parent, hleads⟩

end MakesWay

end View

end KotlinSchema
