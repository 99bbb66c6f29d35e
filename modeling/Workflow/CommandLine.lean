import Workflow.Demo

/-!
The command: it shows the demonstration and writes its files to a directory if one is named.
-/

namespace Workflow.CommandLine

structure Outcome where
  exitCode : Nat
  printed : List String
  files : List (String × String)

/-- A fault ends the command with a message of its own. -/
def run (directory : Option Directory) : Outcome :=
  let saved := Demo.run directory
  match saved.report.result with
  | .ok succeeded => ⟨if succeeded then 0 else 1, saved.report.printed, saved.files⟩
  | .error fault =>
    let text := s!"Fatal error running state graph compiler demo: {fault.message}"
    ⟨1, saved.report.printed ++ [Terminal.inColor Terminal.red text], saved.files⟩

end Workflow.CommandLine
