import Workflow.Chain

/-!
States with several ways on: the rules and the default of a choice, the branches of a parallel state
and the iterator of a map state. The frontier of a choice is where its branches have got to.
-/

namespace Workflow
namespace Workspace

/-- The states that the work leads to and that are still to be continued, in order. A state is
followed once; one that is stopped, ends a path or leads on by name leads nowhere. -/
def frontierFrom (w : Workspace) : (fuel : Nat) → (seen work : List StateId) → List StateId
  | 0, _, _ => []
  | _ + 1, _, [] => []
  | fuel + 1, seen, s :: work =>
    if s ∈ seen then frontierFrom w fuel seen work
    else if (w.state s).isTerminal then frontierFrom w fuel (s :: seen) work
    else match (w.state s).exit with
      | .unset => s :: frontierFrom w fuel (s :: seen) work
      | .next (.state t) => frontierFrom w fuel (s :: seen) (t :: work)
      | .next (.name _) | .stop => frontierFrom w fuel (s :: seen) work

/-- The open ends of the branches of a choice. Every state adds at most one to the work, which
bounds the steps. -/
def frontier (w : Workspace) (choice : StateId) (tails : List StateId) : List StateId :=
  w.frontierFrom (tails.length + w.states.size + 1) [choice] tails

/-- The chain that continues all branches of a choice, and the choice itself if it has no
default. -/
def afterwards (w : Workspace) (s : StateId) : Except Fault Chain :=
  match (w.state s).kind with
  | .choice _ tails =>
    .ok ⟨s, w.frontier s tails ++ if (w.state s).onward.isNone then [s] else []⟩
  | _ => .error (.unsupported (w.state s).typeName "afterwards")

end Workspace

namespace Build

/-- The rules and the tails of a choice. -/
def choice (s : StateId) (operation : String) :
    Build (List (Rule Target) × List StateId) := do
  let state := (← get).state s
  match state.kind with
  | .choice rules tails => return (rules, tails)
  | _ => throw (.unsupported state.typeName operation)

/-- Tails with further open ends, each of them once. -/
def extend (tails openEnds : List StateId) : List StateId :=
  openEnds.foldl (fun tails s => if s ∈ tails then tails else tails ++ [s]) tails

/-- Adds a rule to a choice. -/
def addRule (s : StateId) (condition : Except String Condition) (destination : Destination) :
    Build Unit := do
  let (rules, tails) ← choice s "when"
  let condition ← match condition with
    | .ok condition => pure condition
    | .error typeName => throw (.notACondition typeName)
  let (target, openEnds) ← lift ((← get).resolve destination)
  modifyState s fun state =>
    { state with kind := .choice (rules ++ [⟨condition, target⟩]) (extend tails openEnds) }

/-- Gives a choice its default. -/
def setDefault (s : StateId) (destination : Destination) : Build Unit := do
  let (rules, tails) ← choice s "otherwise"
  let (target, openEnds) ← lift ((← get).resolve destination)
  wire s target
  modifyState s fun state => { state with kind := .choice rules (extend tails openEnds) }

/-- Adds branches to a parallel state. -/
def addBranches (s : StateId) (starts : List StateId) : Build Unit := do
  let state := (← get).state s
  match state.kind with
  | .parallel fields branches =>
    modifyState s ({ · with kind := .parallel fields (branches ++ starts) })
  | _ => throw (.unsupported state.typeName "branch")

/-- Gives a map state its iterator, which is set once. -/
def setIterator (s start : StateId) : Build Unit := do
  let w ← get
  match (w.state s).kind with
  | .map _ (some given) =>
    throw (.misconfigured (w.state s).name (.iteratorSet (w.state given).name))
  | .map fields none => modifyState s ({ · with kind := .map fields (some start) })
  | _ => throw (.unsupported (w.state s).typeName "iterator")

end Build
end Workflow
