import KotlinSchema.Proofs.Pipeline.Repetition
import KotlinSchema.Proofs.Workspace.Listing

/-! The files that a run reads. Below a directory these are all with one of the suffixes, in the
order of their paths, unless a path there is longer than any may be. -/

namespace KotlinSchema.Workspace

section Selection
variable {w : Workspace} {directory : Path} {suffixes : List String}

end Selection

section Overlong
open Pipeline

end Overlong

end KotlinSchema.Workspace
