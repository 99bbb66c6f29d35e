import Workflow.Machine.Basic
import Workflow.Machine.Check

/-!
Saving a machine: its definition and its policy are written to a directory, after a check if one is
asked for. The files of a directory that exists are assumed to open, one after the other, and to be
written in full, so that both files are written or none.
-/

namespace Workflow

/-- A directory that files are saved to: how it is called and whether it exists. -/
structure Directory where
  name : String
  isPresent : Bool

/-- What saving printed and came to, and the files that were written. -/
structure Saved where
  report : Report Bool
  files : List (String × String)

namespace Machine

def definitionFile : String := "state_machine.asl.json"

def policyFile : String := "role_policy.json"

/-- Writes the definition and the policy. -/
def write (m : Machine) (directory : Directory) : Saved :=
  let path := fun file => directory.name ++ "/" ++ file
  if directory.isPresent then
    { report :=
        { printed :=
            [Terminal.inColor Terminal.green s!"✅ State Machine saved to {path definitionFile}",
              Terminal.inColor Terminal.green s!"✅ Role Policy saved to {path policyFile}"]
          result := .ok true }
      files := [(definitionFile, m.definition.toJson.text .indented),
        (policyFile, m.policy.text .indented)] }
  else { report := ⟨[], .error (.missingDirectory (path definitionFile))⟩, files := [] }

/-- Writes the definition and the policy. Where a reply was asked for, it has to find the definition
valid. -/
def save (m : Machine) (directory : Directory) (reply : Option Reply) : Saved :=
  match reply with
  | none => m.write directory
  | some reply =>
    let checked := reply.check
    match checked.result with
    | .ok true =>
      let saved := m.write directory
      { saved with report.printed := checked.printed ++ saved.report.printed }
    | _ => ⟨checked, []⟩

end Machine
end Workflow
