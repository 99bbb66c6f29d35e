import Workflow.CommandLine

/-!
Runs the command with the directory named by its argument, prints what it reports and writes its
files.
-/

open Workflow

/-- The directory of a name, which is missing if it cannot be resolved. -/
def findDirectory (name : String) : IO Directory := do
  try
    let path ← IO.FS.realPath name
    return ⟨name, ← path.isDir⟩
  catch _ => return ⟨name, false⟩

def main (args : List String) : IO UInt32 := do
  let outcome := CommandLine.run (← args.head?.mapM findDirectory)
  for line in outcome.printed do
    IO.println line
  for name in args.take 1 do
    for (file, text) in outcome.files do
      IO.FS.writeFile (name ++ "/" ++ file) text
  return outcome.exitCode.toUInt32
