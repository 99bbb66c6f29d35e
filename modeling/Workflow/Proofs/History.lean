import Workflow.Branching
import Workflow.Construction
import Workflow.Machine.Basic

/-!
Histories. Whatever is done with a workspace is an operation on objects that it has: an edit of its
scopes and states or an inquiry into its graphs. An operation that fails keeps what it changed
before it failed, so that it leaves a workspace in either case. A history is a sequence of
operations.
-/

namespace Workflow

/-- The workspace that a computation leaves, be it with a value or with a fault. -/
def Build.after {α : Type} (m : Build α) (w : Workspace) : Workspace :=
  match m w with
  | .ok _ v => v
  | .error _ v => v

/-- The conditions that can be made. -/
inductive Condition.Made : Condition → Prop
  | comparison {path : Json} {operator : String} {operand : Json} {condition : Condition} :
      Condition.comparison path operator operand = .ok condition → Made condition
  | conjunction {operands : List Condition} {condition : Condition} :
      (∀ c ∈ operands, Made c) → Condition.conjunction operands = .ok condition → Made condition
  | disjunction {operands : List Condition} {condition : Condition} :
      (∀ c ∈ operands, Made c) → Condition.disjunction operands = .ok condition → Made condition
  | not {operand : Condition} : Made operand → Made (.not operand)

/-- Operations on scopes and states, by themselves and as the open ends of chains. -/
inductive Edit where
  | allocate (c : ScopeId) (id : String)
  | scope (id : String) (parent : Option ScopeId)
  | state (c : ScopeId) (id : String) (name : Option String) (common : CommonFields)
      (description : Description)
  | rename (s : StateId) (name : String)
  | wire (s : StateId) (destination : Destination)
  | stop (s : StateId)
  | retry (s : StateId) (parts : Retry.Parts)
  | handle (s : StateId) (destination : Destination) (errors resultPath : Json)
  | rule (s : StateId) (condition : Except String { c : Condition // c.Made })
      (destination : Destination)
  | otherwise (s : StateId) (destination : Destination)
  | branches (s : StateId) (starts : List StateId)
  | iterator (s start : StateId)
  | next (c : Chain) (destination : Destination)
  | finish (c : Chain)

/-- Operations on graphs. Most of them compile the graph that they ask for. -/
inductive Inquiry where
  | graph (start : Option StateId) (label : String) (timeout : Json)
  | setTimeout (ref : GraphRef) (value : Json)
  | level (ref : GraphRef)
  | allStates (ref : GraphRef)
  | subgraphs (ref : GraphRef) (s : StateId)
  | document (ref : GraphRef)
  | statements (ref : GraphRef)
  | machine (definition : Option StateId) (role : Json) (name : Option String) (timeout : Json)

inductive Operation where
  | edit (e : Edit)
  | inquiry (q : Inquiry)

namespace Workspace

def HasScope (w : Workspace) (c : ScopeId) : Prop := c.index < w.scopes.size

def HasState (w : Workspace) (s : StateId) : Prop := s.index < w.states.size

def HasGraph (w : Workspace) (g : GraphId) : Prop := g.index < w.graphs.size

instance (w : Workspace) (c : ScopeId) : Decidable (w.HasScope c) :=
  inferInstanceAs (Decidable (_ < _))

instance (w : Workspace) (s : StateId) : Decidable (w.HasState s) :=
  inferInstanceAs (Decidable (_ < _))

instance (w : Workspace) (g : GraphId) : Decidable (w.HasGraph g) :=
  inferInstanceAs (Decidable (_ < _))

def HasChain (w : Workspace) (c : Chain) : Prop :=
  w.HasState c.start ∧ ∀ s ∈ c.openEnds, w.HasState s

def HasDestination (w : Workspace) : Destination → Prop
  | .state s => w.HasState s
  | .chain c => w.HasChain c
  | .name _ | .other _ => True

instance (w : Workspace) (c : Chain) : Decidable (w.HasChain c) :=
  inferInstanceAs (Decidable (_ ∧ _))

instance (w : Workspace) : (d : Destination) → Decidable (w.HasDestination d)
  | .state s => inferInstanceAs (Decidable (w.HasState s))
  | .chain c => inferInstanceAs (Decidable (w.HasChain c))
  | .name _ | .other _ => .isTrue trivial

end Workspace

namespace Edit

def after (w : Workspace) : Edit → Workspace
  | allocate c id => (Build.allocate c id).after w
  | scope id parent => (Build.scope id parent).after w
  | state c id name common description => (Build.state c id name common description).after w
  | rename s name => (Build.rename s name).after w
  | wire s destination => (Build.wireTo s destination).after w
  | stop s => (Build.stop s).after w
  | retry s parts => (Build.addRetry s parts).after w
  | handle s destination errors resultPath =>
    (Build.addCatch s destination errors resultPath).after w
  | rule s condition destination =>
    (Build.addRule s (condition.map Subtype.val) destination).after w
  | otherwise s destination => (Build.setDefault s destination).after w
  | branches s starts => (Build.addBranches s starts).after w
  | iterator s start => (Build.setIterator s start).after w
  | next c destination => (c.next destination).after w
  | finish c => c.finish.after w

/-- An edit is of objects that the workspace has. -/
def Within (w : Workspace) : Edit → Prop
  | allocate c _ => w.HasScope c
  | scope _ parent => ∀ c ∈ parent, w.HasScope c
  | state c _ _ _ _ => w.HasScope c
  | rename s _ | stop s | retry s _ => w.HasState s
  | wire s destination | handle s destination _ _ | rule s _ destination
  | otherwise s destination => w.HasState s ∧ w.HasDestination destination
  | branches s starts => w.HasState s ∧ ∀ start ∈ starts, w.HasState start
  | iterator s start => w.HasState s ∧ w.HasState start
  | next c destination => w.HasChain c ∧ w.HasDestination destination
  | finish c => w.HasChain c

instance (w : Workspace) : (e : Edit) → Decidable (e.Within w)
  | allocate c _ | state c _ _ _ _ => inferInstanceAs (Decidable (w.HasScope c))
  | scope _ parent => inferInstanceAs (Decidable (∀ c ∈ parent, w.HasScope c))
  | rename s _ | stop s | retry s _ => inferInstanceAs (Decidable (w.HasState s))
  | wire s destination | handle s destination _ _ | rule s _ destination
  | otherwise s destination =>
    inferInstanceAs (Decidable (w.HasState s ∧ w.HasDestination destination))
  | branches s starts =>
    inferInstanceAs (Decidable (w.HasState s ∧ ∀ start ∈ starts, w.HasState start))
  | iterator s start => inferInstanceAs (Decidable (w.HasState s ∧ w.HasState start))
  | next c destination => inferInstanceAs (Decidable (w.HasChain c ∧ w.HasDestination destination))
  | finish c => inferInstanceAs (Decidable (w.HasChain c))

end Edit

namespace Inquiry

def after (w : Workspace) : Inquiry → Workspace
  | graph start label timeout => (Build.graph start label timeout).after w
  | setTimeout ref value => (Build.setTimeout ref value).after w
  | level ref => (Build.level ref).after w
  | allStates ref => (Build.allStates ref).after w
  | subgraphs ref s => (Build.subgraphs ref s).after w
  | document ref => (Build.document ref).after w
  | statements ref => (Build.statements ref).after w
  | machine definition role name timeout => (Build.machine definition role name timeout).after w

def Within (w : Workspace) : Inquiry → Prop
  | graph start _ _ | machine start _ _ _ => ∀ s ∈ start, w.HasState s
  | setTimeout ref _ | level ref | allStates ref | document ref | statements ref =>
    w.HasGraph ref.root
  | subgraphs ref s => w.HasGraph ref.root ∧ w.HasState s

instance (w : Workspace) : (q : Inquiry) → Decidable (q.Within w)
  | graph start _ _ | machine start _ _ _ => inferInstanceAs (Decidable (∀ s ∈ start, w.HasState s))
  | setTimeout ref _ | level ref | allStates ref | document ref | statements ref =>
    inferInstanceAs (Decidable (w.HasGraph ref.root))
  | subgraphs ref s => inferInstanceAs (Decidable (w.HasGraph ref.root ∧ w.HasState s))

end Inquiry

namespace Operation

def after (w : Workspace) : Operation → Workspace
  | edit e => e.after w
  | inquiry q => q.after w

def Within (w : Workspace) : Operation → Prop
  | edit e => e.Within w
  | inquiry q => q.Within w

instance (w : Workspace) : (op : Operation) → Decidable (op.Within w)
  | edit e => inferInstanceAs (Decidable (e.Within w))
  | inquiry q => inferInstanceAs (Decidable (q.Within w))

end Operation

namespace Workspace

/-- What operations, one after the other, make of a workspace. -/
def run (w : Workspace) (ops : List Operation) : Workspace := ops.foldl Operation.after w

/-- Whether each of the operations is on objects that there are when its turn comes. -/
def Allows (w : Workspace) : List Operation → Prop
  | [] => True
  | op :: ops => op.Within w ∧ (op.after w).Allows ops

instance decidableAllows : (ops : List Operation) → (w : Workspace) → Decidable (w.Allows ops)
  | [], _ => .isTrue trivial
  | op :: ops, w =>
    have := decidableAllows ops (op.after w)
    inferInstanceAs (Decidable (op.Within w ∧ (op.after w).Allows ops))

end Workspace

/-- Whether operations, one after the other, lead from a workspace to another. -/
inductive Runs : Workspace → List Operation → Workspace → Prop
  | nil (w : Workspace) : Runs w [] w
  | cons {w w' : Workspace} {op : Operation} {ops : List Operation} :
      op.Within w → Runs (op.after w) ops w' → Runs w (op :: ops) w'

namespace Runs

variable {u v w : Workspace} {op : Operation} {ops more : List Operation}

theorem of_allows (allowed : w.Allows ops) : Runs w ops (w.run ops) := by
  induction ops generalizing w with
  | nil => exact .nil w
  | cons op ops ih => exact .cons allowed.1 (ih allowed.2)

theorem eq_run (runs : Runs u ops w) : w = u.run ops := by
  induction runs with
  | nil => rfl
  | cons _ _ ih => exact ih

/-- What each of the operations keeps is kept by all of them. -/
theorem keeps {P : Workspace → Prop} (runs : Runs u ops w)
    (step : ∀ {v : Workspace} {op : Operation}, op ∈ ops → op.Within v → P v → P (op.after v))
    (before : P u) : P w := by
  induction runs with
  | nil => exact before
  | cons within _ ih =>
    refine ih ?_ (step List.mem_cons_self within before)
    intro v op member
    exact step (List.mem_cons_of_mem _ member)

end Runs
end Workflow
