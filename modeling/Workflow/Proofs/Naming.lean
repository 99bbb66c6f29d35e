import Mathlib.Data.List.Nodup
import Workflow.Proofs.Wiring

/-!
Names and references over time. A scope lists each of its states once, under the name that the state
was defined with, which is the name that the state has unless it was renamed. States refer to states
that there are, and graphs start at such states.
-/

namespace Workflow

namespace Scope

theorem lookup_enter (names : List (String × List StateId)) (name other : String) (s : StateId) :
    (enter names name s).lookup other =
      if other = name then some ((names.lookup name).getD [] ++ [s]) else names.lookup other := by
  induction names with
  | nil =>
    by_cases same : other = name
    · simp [enter, same]
    · simp [enter, same, List.lookup_cons, beq_eq_false_iff_ne.mpr same]
  | cons entry rest ih =>
    obtain ⟨listed, states⟩ := entry
    by_cases here : listed = name
    · subst here
      by_cases same : other = listed
      · simp [enter, same]
      · simp [enter, same, List.lookup_cons, beq_eq_false_iff_ne.mpr same]
    · rw [enter, if_neg here, List.lookup_cons, List.lookup_cons, List.lookup_cons, ih]
      by_cases same : other = listed
      · subst same
        simp [here]
      · simp [beq_eq_false_iff_ne.mpr same, beq_eq_false_iff_ne.mpr (Ne.symm here)]

theorem named_define (scope : Scope) (name other : String) (s : StateId) :
    (scope.define name s).named other =
      if other = name then scope.named name ++ [s] else scope.named other := by
  rw [named, define, lookup_enter]
  split <;> rfl

theorem named_of_allocate {scope new : Scope} {id granted : String}
    (ok : scope.allocate id = .ok (granted, new)) : new.named = scope.named := by
  unfold allocate at ok
  split at ok
  · cases ok
  · cases ok
    rfl

end Scope

namespace Workspace

variable {w v : Workspace}

theorem scope_setScope (w : Workspace) (c d : ScopeId) (new : Scope) :
    (w.setScope c new).scope d = if d = c ∧ w.HasScope c then new else w.scope d := by
  obtain ⟨i⟩ := c
  obtain ⟨j⟩ := d
  simp only [scope, setScope, HasScope, Array.getD_eq_getD_getElem?, Array.getElem?_setIfInBounds,
    ScopeId.mk.injEq]
  by_cases same : j = i
  · subst same
    by_cases inside : j < w.scopes.size <;> simp [inside]
  · simp [same, Ne.symm same]

theorem named_setScope {c : ScopeId} {new : Scope} (same : new.named = (w.scope c).named)
    (d : ScopeId) : ((w.setScope c new).scope d).named = (w.scope d).named := by
  rw [scope_setScope]
  split
  · rename_i here
    rw [same, here.1]
  · rfl

theorem scope_push (w : Workspace) (new : Scope) (c : ScopeId) :
    Workspace.scope { w with scopes := w.scopes.push new } c =
      if c = ⟨w.scopes.size⟩ then new else w.scope c := by
  obtain ⟨i⟩ := c
  simp only [scope, Array.getD_eq_getD_getElem?, Array.getElem?_push, ScopeId.mk.injEq]
  split <;> rfl

theorem scope_of_not_hasScope {c : ScopeId} (unknown : ¬ w.HasScope c) : w.scope c = default := by
  rw [scope, Array.getD_eq_getD_getElem?, Array.getElem?_eq_none (Nat.le_of_not_lt unknown)]
  rfl

theorem not_hasScope_next (w : Workspace) : ¬ w.HasScope ⟨w.scopes.size⟩ := Nat.lt_irrefl _

theorem named_push {new : Scope} (fresh : new.names = []) (c : ScopeId) :
    (Workspace.scope { w with scopes := w.scopes.push new } c).named = (w.scope c).named := by
  rw [scope_push]
  split
  · rename_i last
    rw [last, scope_of_not_hasScope w.not_hasScope_next]
    funext name
    rw [Scope.named, fresh]
    rfl
  · rfl

theorem named_define {c : ScopeId} (known : w.HasScope c) (new : State) (d : ScopeId)
    (name : String) :
    ((w.define c new).scope d).named name =
      if d = c ∧ name = new.name then (w.scope c).named name ++ [⟨w.states.size⟩]
      else (w.scope d).named name := by
  rw [define, scope_setScope]
  by_cases same : d = c
  · subst same
    rw [if_pos ⟨rfl, known⟩, Scope.named_define]
    by_cases named : name = new.name <;> simp [named]
  · rw [if_neg fun here => same here.1, if_neg fun here => same here.1]
    rfl

/-- What the lists of the scopes are: each state is at one place in the lists of its own scope. -/
structure Indexed (w : Workspace) : Prop where
  listed : ∀ {c : ScopeId} {name : String} {s : StateId}, s ∈ (w.scope c).named name →
    w.HasState s ∧ (w.state s).scope = c
  unique : ∀ {c : ScopeId} {name other : String} {s : StateId}, s ∈ (w.scope c).named name →
    s ∈ (w.scope c).named other → name = other
  nodup : ∀ (c : ScopeId) (name : String), ((w.scope c).named name).Nodup

/-- Whether a state has the name that it was defined with. -/
def KeepsName (w : Workspace) (s : StateId) : Prop :=
  s ∈ (w.scope (w.state s).scope).named (w.state s).name

instance (w : Workspace) (s : StateId) : Decidable (w.KeepsName s) :=
  inferInstanceAs (Decidable (_ ∈ _))

theorem Indexed.name_eq {c : ScopeId} {name : String} {s : StateId} (indexed : w.Indexed)
    (member : s ∈ (w.scope c).named name) (keeps : w.KeepsName s) : (w.state s).name = name := by
  obtain ⟨-, rfl⟩ := indexed.listed member
  exact indexed.unique keeps member

theorem Indexed.of_same (indexed : w.Indexed)
    (named : ∀ c, (v.scope c).named = (w.scope c).named)
    (states : ∀ s, w.HasState s → v.HasState s ∧ (v.state s).scope = (w.state s).scope) :
    v.Indexed := by
  constructor
  case listed =>
    intro c name s member
    rw [named] at member
    obtain ⟨known, rfl⟩ := indexed.listed member
    exact states s known
  case unique =>
    intro c name other s member member'
    rw [named] at member member'
    exact indexed.unique member member'
  case nodup =>
    intro c name
    rw [named]
    exact indexed.nodup c name

theorem hasState_define {c : ScopeId} {new : State} {s : StateId} :
    (w.define c new).HasState s ↔ w.HasState s ∨ s = ⟨w.states.size⟩ := by
  obtain ⟨i⟩ := s
  simp only [HasState, define, setScope, Array.size_push, StateId.mk.injEq]
  exact Nat.lt_succ_iff_lt_or_eq

theorem not_hasState_next (w : Workspace) : ¬ w.HasState ⟨w.states.size⟩ := Nat.lt_irrefl _

/-- A state that there is stays as it is when another one is defined. -/
theorem state_define_of_hasState {s : StateId} (known : w.HasState s) (c : ScopeId) (new : State) :
    (w.define c new).state s = w.state s := by
  rw [state_define, if_neg]
  rintro rfl
  exact w.not_hasState_next known

theorem Indexed.define {c : ScopeId} {new : State} (indexed : w.Indexed) (known : w.HasScope c)
    (fresh : new.New c) : (w.define c new).Indexed := by
  have old {d : ScopeId} {name : String} : ⟨w.states.size⟩ ∉ (w.scope d).named name :=
    fun member => w.not_hasState_next (indexed.listed member).1
  have member {d : ScopeId} {name : String} {s : StateId}
      (listed : s ∈ ((w.define c new).scope d).named name) :
      s ∈ (w.scope d).named name ∨ s = ⟨w.states.size⟩ ∧ d = c ∧ name = new.name := by
    rw [named_define known] at listed
    split at listed
    · rename_i here
      rcases List.mem_append.mp listed with listed | last
      · exact .inl (here.1 ▸ listed)
      · exact .inr ⟨List.mem_singleton.mp last, here⟩
    · exact .inl listed
  constructor
  case listed =>
    intro d name s listed
    rcases member listed with listed | ⟨rfl, rfl, -⟩
    · obtain ⟨there, scope⟩ := indexed.listed listed
      rw [state_define_of_hasState there]
      exact ⟨hasState_define.mpr (.inl there), scope⟩
    · rw [state_define, if_pos rfl]
      exact ⟨hasState_define.mpr (.inr rfl), fresh.scope⟩
  case unique =>
    intro d name other s listed listed'
    rcases member listed with listed | ⟨rfl, -, rfl⟩ <;>
      rcases member listed' with listed' | ⟨same, -, same'⟩
    · exact indexed.unique listed listed'
    · exact absurd (same ▸ listed) old
    · exact absurd listed' old
    · exact same'.symm
  case nodup =>
    intro d name
    rw [named_define known]
    split
    · exact List.nodup_append.mpr ⟨indexed.nodup c name, List.nodup_singleton _,
        by simpa using fun s listed same => old (same ▸ listed)⟩
    · exact indexed.nodup d name

/-- What a change leaves of the lists of the scopes and of the states, unless it defines a state. -/
theorem Change.define_or_same (change : w.Change v) :
    (∃ c new, w.HasScope c ∧ new.New c ∧ v = w.define c new) ∨
      (∀ c, (v.scope c).named = (w.scope c).named) ∧ ∀ s, (v.HasState s ↔ w.HasState s) ∧
        (v.state s).scope = (w.state s).scope ∧ (v.state s).name = (w.state s).name ∧
        (v.state s).type? = (w.state s).type? := by
  cases change with
  | allocate c ok =>
    exact .inr ⟨named_setScope (Scope.named_of_allocate ok), fun s => ⟨.rfl, rfl, rfl, rfl⟩⟩
  | scope new _ fresh => exact .inr ⟨named_push fresh, fun s => ⟨.rfl, rfl, rfl, rfl⟩⟩
  | define known fresh => exact .inl ⟨_, _, known, fresh, rfl⟩
  | state t changed =>
    refine .inr ⟨fun c => rfl, fun s => ⟨hasState_setState, ?_⟩⟩
    rw [state_setState]
    split
    · rename_i here
      have type := changed.type_eq
      rw [← here.1]
      cases changed <;> exact ⟨rfl, rfl, type⟩
    · exact ⟨rfl, rfl, rfl⟩

theorem Change.indexed (change : w.Change v) (indexed : w.Indexed) : v.Indexed := by
  rcases change.define_or_same with ⟨c, new, known, fresh, rfl⟩ | ⟨named, same⟩
  · exact indexed.define known fresh
  · exact indexed.of_same named fun s known => ⟨(same s).1.mpr known, (same s).2.1⟩

/-- A state that a change brings in has the name that it is listed under, and a change renames
none. -/
theorem Change.keepsName {s : StateId} (change : w.Change v) (known : v.HasState s)
    (before : w.HasState s → w.KeepsName s) : v.KeepsName s := by
  rcases change.define_or_same with ⟨c, new, scope, fresh, rfl⟩ | ⟨named, same⟩
  · rw [KeepsName, named_define scope]
    rcases hasState_define.mp known with there | rfl
    · have keeps := before there
      rw [state_define_of_hasState there]
      split
      · rename_i here
        rw [← here.1]
        exact List.mem_append_left _ keeps
      · exact keeps
    · rw [state_define, if_pos rfl, if_pos ⟨fresh.scope, rfl⟩]
      exact List.mem_append_right _ List.mem_cons_self
  · obtain ⟨there, scope, name, -⟩ := same s
    rw [KeepsName, named, scope, name]
    exact before (there.mp known)

theorem state_rename_of_ne {s t : StateId} (other : t ≠ s) (name : String) :
    (w.rename s name).state t = w.state t := by
  rw [rename, state_setState, if_neg fun here => other here.1.symm]

theorem scope_of_rename (w : Workspace) (s t : StateId) (name : String) :
    ((w.rename s name).state t).scope = (w.state t).scope :=
  w.rename_cases (P := fun before after => after.scope = before.scope) (fun _ => rfl)
    (fun _ _ => rfl) s t name

theorem scope_of_scopes (scopes : v.scopes = w.scopes) : v.scope = w.scope := by
  funext c
  rw [scope, scope, scopes]

/-- Whether every state refers only to states that there are. -/
def Closed (w : Workspace) : Prop := ∀ s, ∀ t ∈ (w.state s).references, w.HasState t

end Workspace

namespace State

variable {s new : State} {known : StateId → Prop} {t : StateId}

theorem state?_eq_some {target : Target} : target.state? = some t ↔ target = .state t := by
  cases target <;> simp [Target.state?]

theorem mem_references :
    t ∈ s.references ↔ s.onward = some (.state t) ∨ (∃ rule ∈ s.rules, rule.target = .state t) ∨
      (s.type? ≠ some .choice ∧ ∃ handler ∈ s.catches, handler.target = .state t) ∨
      t ∈ s.nestedStarts := by
  unfold references successors outgoing rules type?
  cases s.kind <;> simp [state?_eq_some, Kind.type?, or_assoc, or_comm, or_left_comm]

theorem New.references_eq {c : ScopeId} (fresh : s.New c) : s.references = [] := by
  obtain ⟨description, kind⟩ := fresh.kind
  have onward : s.onward = none := by rw [State.onward, fresh.exit]
  apply List.eq_nil_iff_forall_not_mem.mpr
  intro t member
  rw [mem_references, onward, fresh.catches] at member
  unfold rules nestedStarts at member
  cases description with
  | task resource fields => cases resource <;> simp [kind, Description.kind] at member
  | _ => simp [kind, Description.kind] at member

/-- What a change makes a state refer to is known. -/
theorem Change.references (change : s.Change known new) (member : t ∈ new.references) :
    t ∈ s.references ∨ known t := by
  rw [mem_references] at member ⊢
  cases change with
  | wire target free there =>
    rcases member with same | old
    · exact .inr (there t (Option.some.inj same))
    · exact .inl (.inr old)
  | stop =>
    rcases member with ⟨⟨⟩⟩ | old
    exact .inl (.inr old)
  | retry => exact .inl member
  | handle handler able there =>
    rcases member with same | ruled | ⟨type, other, listed, same⟩ | nested
    · exact .inl (.inl same)
    · exact .inl (.inr (.inl ruled))
    · rcases List.mem_append.mp listed with old | last
      · exact .inl (.inr (.inr (.inl ⟨type, other, old, same⟩)))
      · exact .inr (there t (List.mem_singleton.mp last ▸ same))
    · exact .inl (.inr (.inr (.inr nested)))
  | rule rule more kind made there =>
    rcases member with same | ⟨other, listed, same⟩ | ⟨type, -⟩ | ⟨⟨⟩⟩
    · exact .inl (.inl same)
    · rcases List.mem_append.mp listed with old | last
      · exact .inl (.inr (.inl ⟨other, by simpa [State.rules, kind] using old, same⟩))
      · exact .inr (there t (List.mem_singleton.mp last ▸ same))
    · exact absurd rfl type
  | tails more kind =>
    rcases member with same | ⟨other, listed, same⟩ | ⟨type, -⟩ | ⟨⟨⟩⟩
    · exact .inl (.inl same)
    · exact .inl (.inr (.inl ⟨other, by simpa [State.rules, kind] using listed, same⟩))
    · exact absurd rfl type
  | branches starts kind there =>
    rcases member with same | ⟨_, ⟨⟩, _⟩ | ⟨-, caught⟩ | nested
    · exact .inl (.inl same)
    · exact .inl (.inr (.inr (.inl ⟨by simp [type?, kind, Kind.type?], caught⟩)))
    · rcases List.mem_append.mp nested with old | start
      · exact .inl (.inr (.inr (.inr (by simpa [nestedStarts, kind] using old))))
      · exact .inr (there t start)
  | iterator start kind there =>
    rcases member with same | ⟨_, ⟨⟩, _⟩ | ⟨-, caught⟩ | nested
    · exact .inl (.inl same)
    · exact .inl (.inr (.inr (.inl ⟨by simp [type?, kind, Kind.type?], caught⟩)))
    · obtain rfl := List.mem_singleton.mp nested
      exact .inr there

end State

namespace Runs

variable {w : Workspace} {ops : List Operation}

theorem indexed (runs : Runs {} ops w) : w.Indexed := by
  refine runs.keeps_of_change (P := Workspace.Indexed) ?_ ?_ ?_ ?_
  · intro v v' change held
    exact change.indexed held
  · intro v s name _ held
    refine held.of_same (fun c => rfl) ?_
    intro t known
    exact ⟨Workspace.hasState_setState.mpr known, v.scope_of_rename s t name⟩
  · intro v v' states scopes held
    refine held.of_same (fun c => by rw [Workspace.scope_of_scopes scopes]) ?_
    intro t known
    rw [Workspace.HasState, states, Workspace.state_of_states states]
    exact ⟨known, rfl⟩
  · have empty (c : ScopeId) (name : String) :
        ((({} : Workspace).scope c).named name) = [] := rfl
    constructor <;> simp [empty]

theorem keepsName (runs : Runs {} ops w) {s : StateId} (known : w.HasState s)
    (never : ∀ name, .edit (.rename s name) ∉ ops) : w.KeepsName s := by
  revert known
  refine runs.keeps_of_change (P := fun v => v.HasState s → v.KeepsName s) ?_ ?_ ?_ ?_
  · intro v v' change held known
    exact change.keepsName known held
  · intro v t name member held known
    have other : s ≠ t := by
      rintro rfl
      exact never name member
    rw [Workspace.KeepsName, Workspace.state_rename_of_ne other]
    exact held (Workspace.hasState_setState.mp known)
  · intro v v' states scopes held known
    rw [Workspace.HasState, states] at known
    rw [Workspace.KeepsName, Workspace.state_of_states states, Workspace.scope_of_scopes scopes]
    exact held known
  · intro known
    cases known

/-- States know of other states only what there is: what changes make them refer to is known when
they are made. -/
theorem known_refs {refs : State → List StateId} (runs : Runs {} ops w)
    (new : ∀ {s : State} {c : ScopeId}, s.New c → refs s = [])
    (step : ∀ {known : StateId → Prop} {s new : State} {t : StateId}, s.Change known new →
      t ∈ refs new → t ∈ refs s ∨ known t)
    (rename : ∀ (s : State) (name : String), refs { s with name } = refs s) (s : StateId) :
    ∀ t ∈ refs (w.state s), w.HasState t := by
  revert s
  refine runs.keeps_of_change (P := fun v => ∀ s, ∀ t ∈ refs (v.state s), v.HasState t) ?_ ?_ ?_ ?_
  · intro v v' change held s t member
    have kept := change.state_cases
      (P := fun before after => (∀ t ∈ refs before, v.HasState t) → ∀ t ∈ refs after, v.HasState t)
      (fun _ before => before) (fun _ c fresh _ t member => by
        rw [new fresh] at member
        cases member)
      (fun _ _ changed before t member => (step changed member).elim (before t) id) s
    exact change.hasState (kept (held s) t member)
  · intro v s name _ held t u member
    have same := v.rename_cases (P := fun before after => refs after = refs before)
      (fun _ => rfl) rename s t name
    rw [same] at member
    exact Workspace.hasState_setState.mpr (held t u member)
  · intro v v' states _ held s t member
    rw [Workspace.state_of_states states] at member
    rw [Workspace.HasState, states]
    exact held s t member
  · intro s t member
    rw [Workspace.state_of_not_hasState (by simp [Workspace.HasState]),
      new (c := ⟨0⟩) ⟨rfl, ⟨.plain, rfl⟩, rfl, rfl, rfl⟩] at member
    cases member

theorem closed (runs : Runs {} ops w) : w.Closed :=
  runs.known_refs State.New.references_eq State.Change.references fun _ _ => rfl

/-- A graph starts at a state that there is. -/
theorem hasState_start (runs : Runs {} ops w) {g : GraphId} (known : w.HasGraph g) :
    w.HasState (w.graph g).start := by
  revert g
  refine runs.keeps (P := fun v => ∀ {g}, v.HasGraph g → v.HasState (v.graph g).start) ?_ ?_
  · intro v op _ within held g known
    apply Workspace.hasState_after within
    rcases Workspace.graph_cases within known with
      ⟨there, same⟩ | ⟨there, -, c, -, same⟩ | ⟨start, -⟩
    · rw [(Prod.mk.inj same).1]
      exact held there
    · rw [same]
      exact held there
    · exact start
  · rintro ⟨i⟩ known
    cases known

/-- A state keeps its type. -/
theorem type_eq {u : Workspace} (runs : Runs u ops w) {s : StateId} (known : u.HasState s) :
    (w.state s).type? = (u.state s).type? := by
  have kept : w.HasState s ∧ (w.state s).type? = (u.state s).type? := by
    refine runs.keeps_of_change
      (P := fun v => v.HasState s ∧ (v.state s).type? = (u.state s).type?) ?_ ?_ ?_ ?_
    · rintro v v' change ⟨there, same⟩
      rcases change.define_or_same with ⟨c, new, -, -, rfl⟩ | ⟨-, kept⟩
      · rw [Workspace.state_define_of_hasState there]
        exact ⟨change.hasState there, same⟩
      · exact ⟨change.hasState there, (kept s).2.2.2.trans same⟩
    · rintro v t name - ⟨there, same⟩
      have kept := v.rename_cases (P := fun before after => after.type? = before.type?)
        (fun _ => rfl) (fun _ _ => rfl) t s name
      exact ⟨Workspace.hasState_setState.mpr there, kept.trans same⟩
    · rintro v v' states - ⟨there, same⟩
      rw [Workspace.HasState, states, Workspace.state_of_states states]
      exact ⟨there, same⟩
    · exact ⟨known, rfl⟩
  exact kept.2

end Runs
end Workflow
