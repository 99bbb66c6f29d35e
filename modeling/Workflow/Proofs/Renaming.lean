import Workflow.Proofs.Acceptance
import Workflow.Proofs.Answers
import Workflow.Proofs.Naming
import Workflow.Proofs.Relabelling

/-!
Renamings. Names are labels and nothing else: when the states of a graph are renamed, each to its
own name and to one that no other state of its scope was defined under, the graph compiles as it did
before, and its document is the old one under the new names.
-/

namespace Workflow

/-- The edits that give states new names, one after the other. -/
def renameAll (name : StateId → String) (states : List StateId) : List Operation :=
  states.map fun s => .edit (.rename s (name s))

namespace Workspace

variable {w v : Workspace} {name : StateId → String} {states : List StateId}

/-- What is called by a name once states have been renamed. -/
def renamed (w : Workspace) (name : StateId → String) (states : List StateId) (old : String) :
    String :=
  ((states.find? fun s => (w.state s).name = old).map name).getD old

theorem renamed_name
    (distinct : ∀ s ∈ states, ∀ t ∈ states, (w.state s).name = (w.state t).name → s = t)
    {s : StateId} (member : s ∈ states) : w.renamed name states (w.state s).name = name s := by
  rw [renamed]
  cases first : states.find? fun t => (w.state t).name = (w.state s).name with
  | none => simpa using List.find?_eq_none.mp first s member
  | some t =>
    have same : (w.state t).name = (w.state s).name := by simpa using List.find?_some first
    obtain rfl := distinct t (List.mem_of_find?_eq_some first) s member same
    rfl

/-- States can be renamed, and nothing changes but their names. -/
theorem exists_runs_renaming (name : StateId → String) (known : ∀ s ∈ states, w.HasState s) :
    ∃ v, Runs w (renameAll name states) v ∧ v.scopes = w.scopes ∧
      ∀ s, v.state s = if s ∈ states then { w.state s with name := name s } else w.state s := by
  induction states generalizing w with
  | nil => exact ⟨w, .nil w, rfl, by simp⟩
  | cons s states ih =>
    have there : w.HasState s := known s List.mem_cons_self
    obtain ⟨v, runs, scopes, state⟩ := ih (w := w.rename s (name s)) fun t member =>
      hasState_setState.mpr (known t (List.mem_cons_of_mem _ member))
    refine ⟨v, .cons there runs, scopes, fun t => ?_⟩
    rw [state]
    by_cases same : t = s
    · have first : (w.rename s (name s)).state s = { w.state s with name := name s } := by
        rw [rename, state_setState, if_pos ⟨rfl, there⟩]
      rw [same, first, if_pos List.mem_cons_self]
      split <;> rfl
    · rw [state_rename_of_ne same]
      simp [same]

/-- The states of a compiled graph are those that come up when its start is unrolled. -/
theorem mem_states_of_compile_iff {g : Graph} {c : Compiled} {s : StateId}
    (ok : w.compile g.label g.start = .ok c) :
    s ∈ c.registry.map (·.state) ↔ w.Occurs g.start s := by
  obtain ⟨sound, -⟩ := level_of_compile ok
  rw [states_of_compile ok, mem_allStates_iff sound]
  rfl

theorem Occurs.successor {start s t : StateId} (occurs : w.Occurs start s)
    (leads : t ∈ (w.state s).successors) : w.Occurs start t := by
  obtain ⟨path, first, unrolls, reaches⟩ := occurs
  exact ⟨path, first, unrolls, reaches.tail leads⟩

/-- What renaming leaves mirrors what was there, as far as the states of a graph are concerned. -/
theorem mirrors_of_renaming {start : StateId} (good : w.WellFormed start)
    (occurs : ∀ s, s ∈ states ↔ w.Occurs start s)
    (identified : ∀ s ∈ states, ∀ t ∈ (w.state s).outgoing, ∃ u, t.2 = .state u)
    (injective : ∀ s ∈ states, ∀ t ∈ states, name s = name t → s = t)
    (free : ∀ s ∈ states, name s = (w.state s).name ∨
      (w.scope (w.state s).scope).named (name s) = [])
    (scopes : v.scopes = w.scopes)
    (state : ∀ s ∈ states, v.state s = { w.state s with name := name s }) :
    w.Mirrors v states (w.renamed name states) := by
  have distinct : ∀ s ∈ states, ∀ t ∈ states, (w.state s).name = (w.state t).name → s = t :=
    fun s member t member' => good.distinct ((occurs s).mp member) ((occurs t).mp member')
  constructor
  case alike =>
    intro s member
    rw [state s member]
    exact ⟨rfl, rfl, rfl, rfl, rfl⟩
  case named =>
    intro s member
    rw [state s member, renamed_name distinct member]
  case distinct =>
    intro s member t member' equal
    rw [state s member, state t member'] at equal
    exact injective s member t member' equal
  case single =>
    intro s member
    rw [state s member, scope_of_scopes scopes]
    rcases free s member with kept | none
    · rw [kept]
      exact good.single ((occurs s).mp member)
    · rw [none]
      exact Nat.zero_le _
  case leads =>
    intro s member t leaves
    obtain ⟨u, target⟩ := identified s member t leaves
    have leads : u ∈ (w.state s).successors :=
      List.mem_filterMap.mpr ⟨t, leaves, by rw [target]; rfl⟩
    have member' : u ∈ states := (occurs u).mpr (((occurs s).mp member).successor leads)
    rw [target, nameOf, nameOf, state u member', renamed_name distinct member']

end Workspace

namespace Build

open Runs

/-- When the states of a graph that refer to each other by identity are renamed, a new graph that
starts alike compiles to the same states, and its document is that of the old graph with the names
replaced wherever they stand. -/
theorem document_after_renaming {w w' : Workspace} {g : GraphId} {states : List StateId}
    {name : StateId → String}
    (current : w.compiled (w.graph g) = w.compile (w.graph g).label (w.graph g).start)
    (compiles : Build.allStates ⟨g, []⟩ w = .ok states w')
    (identified : ∀ s ∈ states, ∀ t ∈ (w.state s).outgoing, ∃ u, t.2 = .state u)
    (injective : ∀ s ∈ states, ∀ t ∈ states, name s = name t → s = t)
    (free : ∀ s ∈ states, name s = (w.state s).name ∨
      (w.scope (w.state s).scope).named (name s) = []) :
    ∃ v new u, Runs w' (renameAll name states) v ∧
      (∀ s ∈ states, (v.state s).name = name s ∧
        w.renamed name states (w.state s).name = name s) ∧
      Build.graph (some (w.graph g).start) (w.graph g).label (w.graph g).givenTimeout v =
        .ok new u ∧
      (∃ u', Build.allStates ⟨new, []⟩ u = .ok states u') ∧
      ∀ document, Build.document ⟨g, []⟩ w = .ok document w' →
        ∃ document' u', Build.document ⟨new, []⟩ u = .ok document' u' ∧
          document'.toJson = document.toJson.relabel (w.renamed name states) .document := by
  obtain ⟨c, ok, rfl, rfl⟩ := allStates_eq_ok.mp compiles
  have compiled := current.symm.trans ok
  obtain ⟨sound, -⟩ := Workspace.level_of_compile compiled
  have good := Workspace.compile_wellFormed compiled
  have occurs : ∀ s, s ∈ c.registry.map (·.state) ↔ w.Occurs (w.graph g).start s :=
    fun s => Workspace.mem_states_of_compile_iff compiled
  have known : ∀ s ∈ c.registry.map (·.state), w.HasState s :=
    fun s member => Workspace.index_lt_of_complete (good.complete ((occurs s).mp member))
  obtain ⟨v, runs, scopes, state⟩ :=
    Workspace.exists_runs_renaming (w := w.keep g c) name known
  obtain ⟨h, start, timeout, fresh, made⟩ := graph_alike (w := v) (w.graph g)
  have mirrors := Workspace.mirrors_of_renaming good occurs identified injective free scopes
    fun s member => (state s).trans (if_pos member)
  obtain ⟨c', compiled', states, under⟩ := Workspace.compile_mirrors compiled mirrors start timeout
  have asked := (v.compiled_push fresh).trans compiled'
  refine ⟨v, _, _, runs, fun s member => ?_, made,
    ⟨_, allStates_eq_ok.mpr ⟨c', asked, rfl, states⟩⟩, ?_⟩
  · have called : (v.state s).name = name s := by rw [state, if_pos member]
    exact ⟨called, (mirrors.named s member).symm.trans called⟩
  intro document handed
  obtain ⟨c₀, ok₀, -, rendered⟩ := document_eq_ok.mp handed
  obtain rfl := Except.ok.inj (ok.symm.trans ok₀)
  obtain ⟨document', rendered', written⟩ := mirrors.document under sound
    (fun s inside => Workspace.states_of_compile compiled ▸ inside) rendered
  refine ⟨document', _, document_eq_ok.mpr ⟨c', asked, rfl, ?_⟩, written⟩
  rw [Workspace.graph_push, if_pos rfl]
  exact rendered'

/-- A graph with a branch, a choice that leads back and a handler. -/
def reviewHandled : List Operation :=
  review ++ [.edit (.handle ⟨0⟩ (.state ⟨3⟩) .null .null)]

def reviewNames (s : StateId) : String := ["Request", "Pause", "Decide", "Over"].getD s.index ""

theorem reviewHandled_after_renaming :
    ∃ w w' document v new u document' u', Runs {} reviewHandled w ∧
      Build.allStates ⟨⟨0⟩, []⟩ w = .ok [⟨0⟩, ⟨1⟩, ⟨2⟩, ⟨3⟩] w' ∧
      Build.document ⟨⟨0⟩, []⟩ w = .ok document w' ∧
      document.toJson.keys = ["Ask", "Decide", "Done"] ∧
      Runs w' (renameAll reviewNames [⟨0⟩, ⟨1⟩, ⟨2⟩, ⟨3⟩]) v ∧
      Build.graph (some ⟨0⟩) "graph starting at 'Ask'" (.nat 60) v = .ok new u ∧
      Build.document ⟨new, []⟩ u = .ok document' u' ∧
      document'.toJson.keys = ["Request", "Decide", "Over"] := by
  have runs : Runs {} reviewHandled _ := .of_allows (by decide)
  obtain ⟨w', document, compiles, handed, keys, relabelled⟩ : ∃ w' document,
      Build.allStates ⟨⟨0⟩, []⟩ (Workspace.run {} reviewHandled) =
        .ok [⟨0⟩, ⟨1⟩, ⟨2⟩, ⟨3⟩] w' ∧
      Build.document ⟨⟨0⟩, []⟩ (Workspace.run {} reviewHandled) = .ok document w' ∧
      document.toJson.keys = ["Ask", "Decide", "Done"] ∧
      (document.toJson.relabel ((Workspace.run {} reviewHandled).renamed reviewNames
        [⟨0⟩, ⟨1⟩, ⟨2⟩, ⟨3⟩]) .document).keys = ["Request", "Decide", "Over"] :=
    ⟨_, _, rfl, rfl, rfl, rfl⟩
  have identified : ∀ s ∈ [⟨0⟩, ⟨1⟩, ⟨2⟩, ⟨3⟩],
      ∀ t ∈ ((Workspace.run {} reviewHandled).state s).outgoing, ∃ u, t.2 = .state u := by
    have known : ∀ s ∈ [⟨0⟩, ⟨1⟩, ⟨2⟩, ⟨3⟩],
        ∀ t ∈ ((Workspace.run {} reviewHandled).state s).outgoing, t.2.state?.isSome = true := by
      decide
    intro s member t leaves
    obtain ⟨u, target⟩ := Option.isSome_iff_exists.mp (known s member t leaves)
    exact ⟨u, State.state?_eq_some.mp target⟩
  have injective : ∀ s ∈ [⟨0⟩, ⟨1⟩, ⟨2⟩, ⟨3⟩], ∀ t ∈ [⟨0⟩, ⟨1⟩, ⟨2⟩, ⟨3⟩],
      reviewNames s = reviewNames t → s = t := by decide
  have free : ∀ s ∈ [⟨0⟩, ⟨1⟩, ⟨2⟩, ⟨3⟩],
      reviewNames s = ((Workspace.run {} reviewHandled).state s).name ∨
        ((Workspace.run {} reviewHandled).scope
          ((Workspace.run {} reviewHandled).state s).scope).named (reviewNames s) = [] := by decide
  obtain ⟨v, new, u, renames, -, made, -, documents⟩ :=
    document_after_renaming rfl compiles identified injective free
  obtain ⟨document', u', handed', written⟩ := documents document handed
  exact ⟨_, w', document, v, new, u, document', u', runs, compiles, handed, keys, renames, made,
    handed', written ▸ relabelled⟩

end Build
end Workflow
