import Mathlib.Logic.Relation
import Mathlib.Tactic.ByContra
import Workflow.Graph.Traversal

/-!
The graph of a start without regard to how it is compiled. The states of a level are those that
transitions lead to from its start. Every state runs graphs of its own, so that a graph unrolls into
a tree of levels, which need not end: a state may run a graph that it is a part of itself.
-/

namespace Workflow.Workspace

variable {w : Workspace}

/-- Whether transitions lead from one state to another, by way of states they refer to by
identity. -/
def Reaches (w : Workspace) : StateId → StateId → Prop :=
  Relation.ReflTransGen fun s t => t ∈ (w.state s).successors

/-- The levels that a start unrolls into: the way down to each and the state it starts at. -/
inductive Unrolls (w : Workspace) (start : StateId) : LevelPath → StateId → Prop
  | top : Unrolls w start [] start
  | nested {path : LevelPath} {first s next : StateId} {i : Nat} :
      Unrolls w start path first → w.Reaches first s → (w.state s).nestedStarts[i]? = some next →
      Unrolls w start (path ++ [(s, i)]) next

/-- The states of a level, by the way down to it. -/
def Belongs (w : Workspace) (start : StateId) (path : LevelPath) (s : StateId) : Prop :=
  ∃ first, w.Unrolls start path first ∧ w.Reaches first s

def Occurs (w : Workspace) (start s : StateId) : Prop :=
  ∃ path, w.Belongs start path s

/-- The conditions on a graph, stated of its states in no order: every state belongs to one level
and is complete, names are unique among the states of the graph and among those defined under them
in the scope of each, and transitions stay within their level. -/
structure WellFormed (w : Workspace) (start : StateId) : Prop where
  disjoint : ∀ {p q : LevelPath} {a b s : StateId}, w.Unrolls start p a → w.Unrolls start q b →
    p ≠ q → w.Reaches a s → ¬ w.Reaches b s
  complete : ∀ {s : StateId}, w.Occurs start s → (w.state s).validate = .ok ()
  distinct : ∀ {s t : StateId}, w.Occurs start s → w.Occurs start t →
    (w.state s).name = (w.state t).name → s = t
  single : ∀ {s : StateId}, w.Occurs start s →
    ((w.scope (w.state s).scope).named (w.state s).name).length ≤ 1
  resolved : ∀ {p : LevelPath} {a s : StateId} {field : Field} {target : Target},
    w.Unrolls start p a → w.Reaches a s → (field, target) ∈ (w.state s).outgoing →
    ∃ t, w.Reaches a t ∧ (w.state t).name = w.nameOf target

theorem WellFormed.path_unique {start s : StateId} (good : w.WellFormed start) {p q : LevelPath}
    (here : w.Belongs start p s) (there : w.Belongs start q s) : p = q := by
  obtain ⟨a, unrolls, reaches⟩ := here
  obtain ⟨b, unrolls', reaches'⟩ := there
  by_contra different
  exact good.disjoint unrolls unrolls' different reaches reaches'

/-- Steps down from a level that lead the same way are the same step. -/
theorem step_unique {path q : LevelPath} {step step' : StateId × Nat}
    (first : path ++ [step] <+: q) (second : path ++ [step'] <+: q) : step = step' := by
  have same : path ++ [step] = path ++ [step'] :=
    (List.prefix_of_prefix_length_le first second (by simp)).eq_of_length (by simp)
  simpa using same

theorem not_below_self (path : LevelPath) (step : StateId × Nat) : ¬ path ++ [step] <+: path := by
  intro further
  have := further.length_le
  rw [List.length_append, List.length_singleton] at this
  omega

end Workflow.Workspace
