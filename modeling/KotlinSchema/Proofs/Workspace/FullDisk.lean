import KotlinSchema.Proofs.Workspace.Frame

/-! A workspace on a disk with no room left. Files can still be opened, which empties them, and
directories be made; but nothing can be written. -/

namespace KotlinSchema

structure FullDisk where
  workspace : Workspace

namespace FullDisk

inductive Fault where
  | file (fault : FileFault)
  | noSpace
  deriving DecidableEq, Repr

instance : ToString Fault where
  toString
    | .file fault => fault.message
    | .noSpace => "[Errno 28] No space left on device"

instance : FileSystem FullDisk Fault where
  isDirectory d p := (FileSystem.isDirectory d.workspace p).mapError .file
  filesBelow d p := (d.workspace.filesBelow p).mapError .file
  readBytes d p := (d.workspace.readBytes p).mapError .file
  makeDirectories d p :=
    (⟨(d.workspace.makeDirectories p).1⟩, (d.workspace.makeDirectories p).2.map .file)
  write d p _ :=
    match d.workspace.writeBytes p [] with
    | .ok after => .brokenOff ⟨after⟩ .noSpace
    | .error fault => .refused (.file fault)

def view : View FullDisk (List String) where
  node? d := d.workspace.node?
  Leads d := Workspace.view.Leads d.workspace

theorem spares_of_write {d after : FullDisk} {p : Path} {content : List UInt8} {fault : Fault}
    (h : FileSystem.write d p content = .brokenOff after fault) : view.Spares p d after := by
  simp only [FileSystem.write] at h
  split at h
  · rename_i emptied hemptied
    obtain ⟨rfl, -⟩ := Writing.brokenOff.inj h
    have hfills := Workspace.fills_writeBytes hemptied
    exact ⟨hfills.leads, hfills.frame⟩
  · simp at h

theorem lawful_view : view.Lawful where
  makesWay d p := by
    have hway := Workspace.makesWay_makeDirectories d.workspace p
    exact ⟨hway.leads, hway.keeps, hway.adds⟩
  fills d p content after h := by
    simp only [FileSystem.write] at h
    split at h <;> simp at h
  spares _ _ _ _ _ h := spares_of_write h

end FullDisk

end KotlinSchema
