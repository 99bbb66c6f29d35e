import Workflow.Proofs.Footprint
import Workflow.Proofs.Renaming

/-!
Locality. Of a workspace a compilation reads its own states and how many states their scopes list
under their names, and nothing else. Where these are the same in another workspace, a new graph that
starts alike is compiled there as well and has the same document and statements. What is done with
other states leaves them the same, whether the others lead to states of the graph, share chains with
them or are defined in their scopes, as long as none is defined under a name that one of them has.
-/

namespace Workflow

namespace Json

mutual
theorem relabel_id (place : Place) (value : Json) : relabel id place value = value := by
  cases value with
  | array items =>
    have each : relabel id place (.array items) = .array (relabelItems id place.item items) := by
      cases place <;> rfl
    rw [each, relabelItems_id]
  | object fields =>
    have each : relabel id place (.object fields) = .object (relabelFields id place fields) := by
      cases place <;> rfl
    rw [each, relabelFields_id]
  | null | bool | number | string => cases place <;> rfl

theorem relabelItems_id (place : Place) (items : List Json) :
    relabelItems id place items = items := by
  match items with
  | [] => rfl
  | item :: items => rw [relabelItems, relabel_id, relabelItems_id]

theorem relabelFields_id (place : Place) (fields : List (String × Json)) :
    relabelFields id place fields = fields := by
  match fields with
  | [] => rfl
  | (key, value) :: fields =>
    rw [relabelFields, relabel_id, relabelFields_id]
    cases place <;> rfl
end

end Json

namespace Workspace

variable {u v w : Workspace} {states : List StateId}

/-- The states that the scope of a state lists under the name of the state. -/
def namesakes (w : Workspace) (s : StateId) : List StateId :=
  (w.scope (w.state s).scope).named (w.state s).name

/-- Whether another workspace has some states alike, under the same names and with as many states
listed under them. -/
structure AgreesOn (w v : Workspace) (states : List StateId) : Prop where
  alike : ∀ s ∈ states, (w.state s).Alike (v.state s)
  name : ∀ s ∈ states, (v.state s).name = (w.state s).name
  namesakes : ∀ s ∈ states, (v.namesakes s).length = (w.namesakes s).length

theorem AgreesOn.refl (w : Workspace) (states : List StateId) : w.AgreesOn w states :=
  ⟨fun _ _ => ⟨rfl, rfl, rfl, rfl, rfl⟩, fun _ _ => rfl, fun _ _ => rfl⟩

theorem AgreesOn.trans (first : u.AgreesOn v states) (then' : v.AgreesOn w states) :
    u.AgreesOn w states := by
  constructor
  case alike =>
    intro s member
    have here := first.alike s member
    have there := then'.alike s member
    exact ⟨there.common.trans here.common, there.kind.trans here.kind, there.exit.trans here.exit,
      there.retries.trans here.retries, there.catches.trans here.catches⟩
  case name => exact fun s member => (then'.name s member).trans (first.name s member)
  case namesakes =>
    exact fun s member => (then'.namesakes s member).trans (first.namesakes s member)

/-- A workspace that agrees on the states of a graph mirrors them under their own names. -/
theorem AgreesOn.mirrors {start : StateId} (agrees : w.AgreesOn v states)
    (good : w.WellFormed start) (occurs : ∀ s, s ∈ states ↔ w.Occurs start s) :
    w.Mirrors v states id := by
  constructor
  case alike => exact agrees.alike
  case named => exact agrees.name
  case distinct =>
    intro s member t member' same
    rw [agrees.name s member, agrees.name t member'] at same
    exact good.distinct ((occurs s).mp member) ((occurs t).mp member') same
  case single =>
    intro s member
    exact (agrees.namesakes s member).trans_le (good.single ((occurs s).mp member))
  case leads =>
    rintro s member ⟨field, target⟩ leaves
    cases target with
    | name => rfl
    | state t =>
      have leads : t ∈ (w.state s).successors := List.mem_filterMap.mpr ⟨_, leaves, rfl⟩
      exact agrees.name t ((occurs t).mpr (((occurs s).mp member).successor leads))

/-- The name under which a state would be defined, unless it is refused. -/
def nameGiven? (w : Workspace) (c : ScopeId) (id : String) (name : Option String) :
    Option String :=
  ((w.scope c).allocate id).toOption.map fun granted =>
    (name.filter fun given => !given.isEmpty).getD granted.1

end Workspace

/-- Whether an edit leaves some states alone: it is an edit of other ones and, if it defines a
state, it does not do so under the name that one of them has in the same scope. -/
def Edit.Spares (states : List StateId) (w : Workspace) : Edit → Prop
  | allocate _ _ | scope _ _ => True
  | state c id name _ _ =>
    ∀ s ∈ states, (w.state s).scope = c → w.nameGiven? c id name ≠ some (w.state s).name
  | rename s _ | wire s _ | stop s | retry s _ | handle s _ _ _ | rule s _ _ | otherwise s _
  | branches s _ | iterator s _ => s ∉ states
  | next c _ | finish c => ∀ s ∈ c.openEnds, s ∉ states

instance (states : List StateId) (w : Workspace) : (e : Edit) → Decidable (e.Spares states w)
  | .allocate _ _ | .scope _ _ => .isTrue trivial
  | .state c id name _ _ => inferInstanceAs (Decidable
      (∀ s ∈ states, (w.state s).scope = c → w.nameGiven? c id name ≠ some (w.state s).name))
  | .rename s _ | .wire s _ | .stop s | .retry s _ | .handle s _ _ _ | .rule s _ _
  | .otherwise s _ | .branches s _ | .iterator s _ => inferInstanceAs (Decidable (s ∉ states))
  | .next c _ | .finish c => inferInstanceAs (Decidable (∀ s ∈ c.openEnds, s ∉ states))

def Operation.Spares (states : List StateId) (w : Workspace) : Operation → Prop
  | edit e => e.Spares states w
  | inquiry _ => True

instance (states : List StateId) (w : Workspace) : (op : Operation) → Decidable (op.Spares states w)
  | .edit e => inferInstanceAs (Decidable (e.Spares states w))
  | .inquiry _ => .isTrue trivial

namespace Workspace

variable {v w : Workspace} {states : List StateId}

/-- Whether each of the operations leaves some states alone when its turn comes. -/
def Spares (states : List StateId) (w : Workspace) : List Operation → Prop
  | [] => True
  | op :: ops => op.Spares states w ∧ Spares states (op.after w) ops

instance decidableSpares (states : List StateId) :
    (ops : List Operation) → (w : Workspace) → Decidable (w.Spares states ops)
  | [], _ => .isTrue trivial
  | op :: ops, w =>
    have := decidableSpares states ops (op.after w)
    inferInstanceAs (Decidable (op.Spares states w ∧ Spares states (op.after w) ops))

/-- Whether another workspace has some states as they are, and all scopes list the same states
there. -/
structure Untouched (w v : Workspace) (states : List StateId) : Prop where
  state : ∀ s ∈ states, v.state s = w.state s
  named : ∀ c, (v.scope c).named = (w.scope c).named

theorem Untouched.agreesOn (untouched : w.Untouched v states) : w.AgreesOn v states := by
  constructor
  case alike =>
    intro s member
    rw [untouched.state s member]
    exact ⟨rfl, rfl, rfl, rfl, rfl⟩
  case name =>
    intro s member
    rw [untouched.state s member]
  case namesakes =>
    intro s member
    rw [namesakes, namesakes, untouched.named, untouched.state s member]

theorem Frame.untouched {touched : List StateId} (frame : w.Frame v touched)
    (others : ∀ s ∈ touched, s ∉ states) : w.Untouched v states where
  state s member := frame.state s fun inside => others s inside member
  named c := by rw [scope_of_scopes frame.scopes]

end Workspace

namespace Build

open Workspace

variable {α β : Type} {w : Workspace} {states : List StateId}

/-- Whether a computation touches none of some states, wherever it starts and however it ends. -/
def Leaves (states : List StateId) (m : Build α) : Prop :=
  ∀ w : Workspace, w.Untouched (m.after w) states

theorem leaves_of_after {m : Build α} (same : ∀ w, m.after w = w) : Leaves states m := by
  intro w
  rw [same]
  exact ⟨fun _ _ => rfl, fun _ => rfl⟩

theorem leaves_throw (fault : Fault) : Leaves states (throw fault : Build α) :=
  leaves_of_after fun _ => rfl

theorem leaves_bind {first : Build α} {next : α → Build β} (leaves : Leaves states first)
    (rest : ∀ a, Leaves states (next a)) : Leaves states (first >>= next) := by
  intro w
  have begun := leaves w
  rcases after_bind_cases first next w with same | ⟨a, -, same⟩
  · rwa [same]
  · have ended := rest a (first.after w)
    rw [same]
    exact ⟨fun s member => (ended.state s member).trans (begun.state s member),
      fun c => (ended.named c).trans (begun.named c)⟩

theorem leaves_get {next : Workspace → Build α} (rest : ∀ w, Leaves states (next w)) :
    Leaves states (get >>= next) :=
  leaves_bind (leaves_of_after fun _ => rfl) rest

theorem leaves_allocate (c : ScopeId) (id : String) : Leaves states (allocate c id) := by
  intro w
  cases allocated : (w.scope c).allocate id with
  | error fault =>
    rw [after, allocate_of_error allocated]
    exact ⟨fun _ _ => rfl, fun _ => rfl⟩
  | ok grant =>
    rw [after, allocate_of_ok allocated]
    exact ⟨fun _ _ => rfl, named_setScope (Scope.named_of_allocate allocated)⟩

theorem leaves_addScope {new : Scope} (fresh : new.names = []) :
    Leaves states (addScope new) := fun _ => ⟨fun _ _ => rfl, named_push fresh⟩

theorem leaves_scope (id : String) (parent : Option ScopeId) : Leaves states (scope id parent) := by
  unfold scope
  by_cases empty : id.isEmpty = true
  · rw [if_pos empty]
    exact leaves_throw _
  by_cases separated : '/' ∈ id.toList
  · rw [if_neg empty, if_pos separated]
    exact leaves_throw _
  rw [if_neg empty, if_neg separated]
  cases parent with
  | none => exact leaves_addScope rfl
  | some c =>
    exact leaves_bind (leaves_allocate c id) fun granted => leaves_get fun _ => leaves_addScope rfl

/-- A state is defined under the name that it is given, or its id is refused. -/
theorem after_state (c : ScopeId) (id : String) (name : Option String) (common : CommonFields)
    (description : Description) :
    (state c id name common description).after w = w ∨
      ∃ scope new, scope.named = (w.scope c).named ∧ w.nameGiven? c id name = some new.name ∧
        (state c id name common description).after w = (w.setScope c scope).define c new := by
  cases allocated : (w.scope c).allocate id with
  | error fault =>
    left
    rw [after, state_of_error allocated]
  | ok grant =>
    obtain ⟨granted, scope⟩ := grant
    obtain ⟨new, -, -, named, defined, -⟩ := state_of_ok allocated name common description
    refine .inr ⟨scope, new, Scope.named_of_allocate allocated, ?_, defined⟩
    rw [nameGiven?, allocated, named]
    rfl

end Build

namespace Workspace

variable {v w : Workspace} {states : List StateId}

theorem AgreesOn.define {c : ScopeId} {new : State} (scope : w.HasScope c)
    (known : ∀ s ∈ states, w.HasState s)
    (free : ∀ s ∈ states, (w.state s).scope = c → new.name ≠ (w.state s).name) :
    w.AgreesOn (w.define c new) states := by
  have kept : ∀ s ∈ states, (w.define c new).state s = w.state s :=
    fun s member => state_define_of_hasState (known s member) c new
  constructor
  case alike =>
    intro s member
    rw [kept s member]
    exact ⟨rfl, rfl, rfl, rfl, rfl⟩
  case name =>
    intro s member
    rw [kept s member]
  case namesakes =>
    intro s member
    rw [Workspace.namesakes, Workspace.namesakes, kept s member, named_define scope, if_neg]
    rintro ⟨here, same⟩
    exact free s member here same.symm

theorem AgreesOn.edit {e : Edit} (known : ∀ s ∈ states, w.HasState s) (within : e.Within w)
    (spares : e.Spares states w) : w.AgreesOn (e.after w) states := by
  cases e with
  | allocate c id => exact (Build.leaves_allocate c id w).agreesOn
  | scope id parent => exact (Build.leaves_scope id parent w).agreesOn
  | state c id name common description =>
    rcases Build.after_state (w := w) c id name common description with
      refused | ⟨scope, new, named, given, defined⟩
    · rw [Edit.after, refused]
      exact .refl w states
    · rw [Edit.after, defined]
      have allocated : w.Untouched (w.setScope c scope) states :=
        ⟨fun _ _ => rfl, named_setScope named⟩
      refine allocated.agreesOn.trans (.define ?_ known fun s member here same => ?_)
      · have there : w.HasScope c := within
        simpa [HasScope, setScope] using there
      · exact spares s member here (same ▸ given)
  | rename s _ | wire s _ | stop s | retry s _ | handle s _ _ _ | rule s _ _ | otherwise s _
  | branches s _ | iterator s _ =>
    have others : ∀ t ∈ [s], t ∉ states := List.forall_mem_singleton.mpr spares
    exact ((frame_edit rfl w).untouched others).agreesOn
  | next c _ | finish c => exact ((frame_edit rfl w).untouched spares).agreesOn

theorem AgreesOn.operation {op : Operation} (known : ∀ s ∈ states, w.HasState s)
    (within : op.Within w) (spares : op.Spares states w) : w.AgreesOn (op.after w) states := by
  cases op with
  | edit e => exact .edit known within spares
  | inquiry q =>
    have asked : w.Asked (q.after w) := asked_inquiry within
    have untouched : w.Untouched (q.after w) states :=
      ⟨fun s _ => by rw [state_of_states asked.states],
        fun c => by rw [scope_of_scopes asked.scopes]⟩
    exact untouched.agreesOn

end Workspace

/-- Operations that leave some states alone lead to a workspace that agrees on them. -/
theorem Runs.agreesOn {v w : Workspace} {states : List StateId} {ops : List Operation}
    (runs : Runs w ops v) (known : ∀ s ∈ states, w.HasState s) (spares : w.Spares states ops) :
    w.AgreesOn v states := by
  induction runs with
  | nil w => exact .refl w states
  | cons within _ ih =>
    obtain ⟨first, rest⟩ := spares
    have there := fun s member => Workspace.hasState_after within (known s member)
    exact (Workspace.AgreesOn.operation known within first).trans (ih there rest)

namespace Build

/-- Whether in another workspace a new graph over the start of a graph, with its label and its
timeout, compiles to some states and has some document, and the statements that the graph has. -/
def Repeats (w : Workspace) (g : GraphId) (states : List StateId) (document : Document)
    (v : Workspace) : Prop :=
  ∃ new u, Build.graph (some (w.graph g).start) (w.graph g).label (w.graph g).givenTimeout v =
      .ok new u ∧
    (∃ u', Build.allStates ⟨new, []⟩ u = .ok states u') ∧
    (∃ document' u', Build.document ⟨new, []⟩ u = .ok document' u' ∧
      document'.toJson = document.toJson) ∧
    Question.statements.outcome ⟨new, []⟩ u = Question.statements.outcome ⟨g, []⟩ w

/-- Compilation is local. A graph that compiles in a workspace, and does not hold what it compiled
to before the states changed, and that has a document, has the same one, the same states and the
same statements, when it is made anew in a workspace that agrees on its states, and so after any
operations that leave its states alone. -/
theorem compilation_is_local {w w' : Workspace} {g : GraphId} {states : List StateId}
    {document : Document}
    (current : w.compiled (w.graph g) = w.compile (w.graph g).label (w.graph g).start)
    (compiles : Build.allStates ⟨g, []⟩ w = .ok states w')
    (serializes : Build.document ⟨g, []⟩ w = .ok document w') :
    (∀ v, w.AgreesOn v states → Repeats w g states document v) ∧
      ∀ ops v, Runs w ops v → w.Spares states ops → Repeats w g states document v := by
  obtain ⟨c, ok, rfl, rfl⟩ := allStates_eq_ok.mp compiles
  have compiled := current.symm.trans ok
  obtain ⟨sound, -⟩ := Workspace.level_of_compile compiled
  have good := Workspace.compile_wellFormed compiled
  have occurs : ∀ s, s ∈ c.registry.map (·.state) ↔ w.Occurs (w.graph g).start s :=
    fun s => Workspace.mem_states_of_compile_iff compiled
  have known : ∀ s ∈ c.registry.map (·.state), w.HasState s :=
    fun s member => Workspace.index_lt_of_complete (good.complete ((occurs s).mp member))
  obtain ⟨c₀, ok₀, -, rendered⟩ := document_eq_ok.mp serializes
  obtain rfl := Except.ok.inj (ok.symm.trans ok₀)
  have repeats (v : Workspace) (agrees : w.AgreesOn v (c.registry.map (·.state))) :
      Repeats w g (c.registry.map (·.state)) document v := by
    have mirrors := agrees.mirrors good occurs
    obtain ⟨h, start, timeout, fresh, made⟩ := graph_alike (w := v) (w.graph g)
    obtain ⟨c', compiled', states, under⟩ :=
      Workspace.compile_mirrors compiled mirrors start timeout
    obtain ⟨document', rendered', written⟩ := mirrors.document under sound
      (fun s inside => Workspace.states_of_compile compiled ▸ inside) rendered
    have asked := (v.compiled_push fresh).trans compiled'
    refine ⟨_, _, made, ⟨_, allStates_eq_ok.mpr ⟨c', asked, rfl, states⟩⟩,
      ⟨document', _, document_eq_ok.mpr ⟨c', asked, rfl, ?_⟩, ?_⟩, ?_⟩
    · rw [Workspace.graph_push, if_pos rfl]
      exact rendered'
    · rw [written, Json.relabel_id]
    · have needed : (c'.registry.map (·.state)).flatMap (fun s => (v.state s).statements) =
          (c.registry.map (·.state)).flatMap fun s => (w.state s).statements := by
        rw [states]
        exact List.flatMap_congr fun s member => (agrees.alike s member).statements_eq
      rw [outcome_push v fresh, compiled', outcome_eq, ok]
      simp only [bind, Except.bind, Question.read, needed]
  exact ⟨repeats, fun ops v runs spares => repeats v (runs.agreesOn known spares)⟩

/-- Another state leads to the graph and takes the name of its start, and one is defined that asks
for the id of the start and gets another one. -/
def asides : List Operation :=
  [.edit (.state ⟨0⟩ "Log" none {} (.pass {})), .edit (.wire ⟨4⟩ (.state ⟨0⟩)),
    .edit (.rename ⟨4⟩ "Ask"), .edit (.state ⟨0⟩ "Ask" none {} .succeed),
    .inquiry (.graph (some ⟨4⟩) "" .null)]

theorem reviewHandled_beside :
    ∃ w w' document v, Runs {} reviewHandled w ∧
      Build.allStates ⟨⟨0⟩, []⟩ w = .ok [⟨0⟩, ⟨1⟩, ⟨2⟩, ⟨3⟩] w' ∧
      Build.document ⟨⟨0⟩, []⟩ w = .ok document w' ∧
      document.toJson.keys = ["Ask", "Decide", "Done"] ∧
      Runs w asides v ∧ (v.state ⟨4⟩).name = "Ask" ∧ w.Spares [⟨0⟩, ⟨1⟩, ⟨2⟩, ⟨3⟩] asides ∧
      Repeats w ⟨0⟩ [⟨0⟩, ⟨1⟩, ⟨2⟩, ⟨3⟩] document v := by
  have runs : Runs {} reviewHandled _ := .of_allows (by decide)
  obtain ⟨w', document, compiles, handed, keys⟩ : ∃ w' document,
      Build.allStates ⟨⟨0⟩, []⟩ (Workspace.run {} reviewHandled) =
        .ok [⟨0⟩, ⟨1⟩, ⟨2⟩, ⟨3⟩] w' ∧
      Build.document ⟨⟨0⟩, []⟩ (Workspace.run {} reviewHandled) = .ok document w' ∧
      document.toJson.keys = ["Ask", "Decide", "Done"] := ⟨_, _, rfl, rfl, rfl⟩
  have later : Runs (Workspace.run {} reviewHandled) asides _ := .of_allows (by decide)
  have spares : (Workspace.run {} reviewHandled).Spares [⟨0⟩, ⟨1⟩, ⟨2⟩, ⟨3⟩] asides := by decide
  obtain ⟨-, repeats⟩ := compilation_is_local rfl compiles handed
  exact ⟨_, w', document, _, runs, compiles, handed, keys, later, rfl, spares,
    repeats asides _ later spares⟩

end Build
end Workflow
