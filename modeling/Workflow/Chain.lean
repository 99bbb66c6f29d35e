import Workflow.Wiring

/-!
Linking chains. All open ends of a chain are checked before any of them is wired, so a chain
without repeated open ends is linked as a whole or not at all. Linking never changes a chain; it
yields a new one.
-/

namespace Workflow
namespace Chain

/-- The open ends of a chain that is to be continued. -/
def checkContinuable (c : Chain) (attempt : Attempt) : Build Unit := do
  if c.openEnds.isEmpty then
    throw (.alreadyWired ((← get).state c.start).name .noOpenEnds attempt)

/-- Wires every open end to the start of a destination, whose open ends the new chain has. -/
def next (c : Chain) (destination : Destination) : Build Chain := do
  c.checkContinuable .continuation
  let w ← get
  let (target, openEnds) ← Build.lift (w.resolve destination)
  c.openEnds.forM fun s => Build.lift (w.checkUnwired s (.link (w.nameOf target)))
  c.openEnds.forM (Build.wire · target)
  return ⟨c.start, openEnds⟩

/-- Marks every open end as the end of its path. -/
def finish (c : Chain) : Build Chain := do
  c.checkContinuable .stop
  let w ← get
  c.openEnds.forM fun s => Build.lift (w.checkStoppable s)
  c.openEnds.forM Build.stop
  return ⟨c.start, []⟩

end Chain
end Workflow
