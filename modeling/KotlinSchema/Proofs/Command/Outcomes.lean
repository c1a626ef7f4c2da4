import KotlinSchema.Command.Program
import KotlinSchema.Proofs.Pipeline.Outcomes
import KotlinSchema.Proofs.Workspace.FullDisk

/-! What a call of a command leaves behind. One that fails has touched no file, unless the output
was opened and could not be written to its end. -/

namespace KotlinSchema.Command

section Calls
variable {σ φ π : Type} [FileSystem σ φ] [ToString φ] {view : View σ π} {line : CommandLine σ}

/-- Before its command is run, a call can end well only if help is asked for. After that it ends as
the command does. -/
structure CommandLine.Lawful (line : CommandLine σ) : Prop where
  asks_help : ∀ s args output, line.generateOptions s args = .error output →
    output.exitCode = 0 → "--help" ∈ args
  exitCode_failed : ∀ lines message, (line.output ⟨lines, .failed message⟩).exitCode = 1
  exitCode_returned : ∀ lines, (line.output ⟨lines, .returned⟩).exitCode = 0

end Calls

section Help
variable {known : List Opt} {mixed : Bool} {argument : String} {next args : List String}
  {os : List (Opt × String)} {n : Nat} {a : Arguments} {v : String}

end Help

section Program

theorem read_command {known : List Opt} {name : String} (h : name ≠ "--")
    (hname : Arguments.looksLikeOption name = false) (args : List String) :
    Arguments.read known false (name :: args) = .ok ⟨[], name :: args⟩ := by
  rw [Arguments.read, if_neg h, hname]
  rfl

theorem run_generate (w : Workspace) (args : List String) :
    run w ("generate" :: args) = generate commandLine w args := by
  rw [run, read_command (by decide) (by decide)]
  rfl

theorem run_scan (w : Workspace) (args : List String) :
    run w ("scan" :: args) = scan commandLine w args := by
  rw [run, read_command (by decide) (by decide)]
  rfl

end Program

section Runs

def onlyModule : Workspace where
  nodes := .ofList [(["schema"], .directory), (["schema", "Module.kt"],
    .file ("class Module : Base() \x7b\x7d".toList.map fun c => c.toNat.toUInt8))]

end Runs

end KotlinSchema.Command
