import Mathlib.Data.List.Nodup
import Mathlib.Data.List.TakeWhile
import Workflow.Proofs.Outcome
import Workflow.Proofs.Unrolling

/-!
What compiling yields. A compiled level lists exactly the states that can be reached from its start,
each complete and with the levels that it runs, and transitions stay within the level; the registry
grows by the states of the level in order. The induction is on the steps of `walk`, with what is
still pending and what was found before left arbitrary.
-/

namespace Workflow

namespace Level

/-- The states that a level lists. -/
def states (members : Members) : List StateId := members.map (·.1.state)

/-- The states of a level and of all levels nested in it as they are registered. -/
def registry : Level → Registry :=
  Nested.fold fun header entries =>
    entries.flatMap fun e => ⟨e.1.name, e.1.state, header.label⟩ :: e.2.flatten

def registrations (label : String) (members : Members) : Registry :=
  members.flatMap fun e => ⟨e.1.name, e.1.state, label⟩ :: e.2.flatMap registry

theorem registry_eq (level : Level) :
    registry level = registrations level.info.label level.entries := by
  obtain ⟨header, entries⟩ := level
  rw [registry, Nested.fold_node, List.flatMap_map]
  simp only [registrations, Nested.info, Nested.entries, List.flatMap_def]
  rfl

@[simp]
theorem states_append (members more : Members) :
    states (members ++ more) = states members ++ states more :=
  List.map_append

theorem mem_states {members : Members} {s : StateId} :
    s ∈ states members ↔ ∃ e ∈ members, e.1.state = s :=
  List.mem_map

end Level

namespace Workspace

variable {w : Workspace} {label : String} {registry registry' : Registry}

theorem mem_states_of_lists {members : Members} {s : StateId} (listed : w.lists members s = true) :
    s ∈ Level.states members := by
  obtain ⟨e, found, same⟩ := Option.map_eq_some_iff.mp (of_decide_eq_true listed)
  exact Level.mem_states.mpr ⟨e, List.mem_of_find?_eq_some found, same⟩

theorem lists_append {members : Members} {s : StateId} (listed : w.lists members s = true)
    (more : Members) : w.lists (members ++ more) s = true := by
  obtain ⟨e, found, same⟩ := Option.map_eq_some_iff.mp (of_decide_eq_true listed)
  simp [lists, Level.named?, List.find?_append, found, same]

/-- Where names are distinct, none hides a state that was found. -/
theorem lists_of_distinct {found : Members} {s : StateId}
    (named : ∀ e ∈ found, e.1.name = (w.state e.1.state).name)
    (distinct : ∀ e ∈ found, ∀ e' ∈ found,
      (w.state e.1.state).name = (w.state e'.1.state).name → e.1.state = e'.1.state)
    (member : s ∈ Level.states found) : w.lists found s = true := by
  obtain ⟨e, entry, rfl⟩ := Level.mem_states.mp member
  cases first : found.find? fun e' => e'.1.name = (w.state e.1.state).name with
  | none => exact absurd (named e entry) (by simpa using List.find?_eq_none.mp first e entry)
  | some e' =>
    have entry' := List.mem_of_find?_eq_some first
    have same : e'.1.name = (w.state e.1.state).name := by simpa using List.find?_some first
    have := distinct e' entry' e entry ((named e' entry').symm.trans same)
    simp [lists, Level.named?, first, this]

/-- A state is registered exactly if it is new, its name is new, and no other state was defined
under that name in its scope. -/
theorem register_eq_ok {s : StateId} :
    w.register label registry s = .ok registry' ↔
      (∀ r ∈ registry, r.state ≠ s) ∧ (∀ r ∈ registry, r.name ≠ (w.state s).name) ∧
      ((w.scope (w.state s).scope).named (w.state s).name).length ≤ 1 ∧
      registry' = registry ++ [⟨(w.state s).name, s, label⟩] := by
  simp only [register]
  cases owned : registry.find? (·.state = s) with
  | some r =>
    have member := List.mem_of_find?_eq_some owned
    have same : r.state = s := by simpa using List.find?_some owned
    simp only [reduceCtorEq, false_iff]
    exact fun fresh => fresh.1 r member same
  | none =>
    cases clash : registry.find? (·.name = (w.state s).name) with
    | some r =>
      have member := List.mem_of_find?_eq_some clash
      have same : r.name = (w.state s).name := by simpa using List.find?_some clash
      simp only [reduceCtorEq, false_iff]
      exact fun fresh => fresh.2.1 r member same
    | none =>
      have newState : ∀ r ∈ registry, r.state ≠ s := by simpa using owned
      have newName : ∀ r ∈ registry, r.name ≠ (w.state s).name := by simpa using clash
      rw [and_iff_right newState, and_iff_right newName]
      rcases defined : (w.scope (w.state s).scope).named (w.state s).name with
        _ | ⟨first, _ | ⟨second, rest⟩⟩ <;> simp [eq_comm]

/-- What holds of a registry as states are entered: names are those that the states have and are
unique, also among the states defined in the scopes of those entered. -/
structure Registered (w : Workspace) (registry : Registry) : Prop where
  named : ∀ r ∈ registry, r.name = (w.state r.state).name
  distinct : (registry.map (·.name)).Nodup
  single : ∀ r ∈ registry, ((w.scope (w.state r.state).scope).named r.name).length ≤ 1

theorem registered_nil : w.Registered [] := ⟨by simp, List.nodup_nil, by simp⟩

theorem Registered.register {s : StateId} (before : w.Registered registry)
    (registered : w.register label registry s = .ok registry') : w.Registered registry' := by
  obtain ⟨-, newName, single, rfl⟩ := register_eq_ok.mp registered
  refine ⟨?_, ?_, ?_⟩
  · simp only [List.mem_append, List.mem_singleton]
    rintro r (old | rfl)
    · exact before.named r old
    · rfl
  · rw [List.map_append, List.nodup_append]
    exact ⟨before.distinct, List.nodup_singleton _, by simpa using newName⟩
  · simp only [List.mem_append, List.mem_singleton]
    rintro r (old | rfl)
    · exact before.single r old
    · exact single

theorem Registered.nodup_states (registered : w.Registered registry) :
    (registry.map (·.state)).Nodup := by
  have names : registry.map (·.name) = (registry.map (·.state)).map fun s => (w.state s).name := by
    rw [List.map_map]
    exact List.map_congr_left registered.named
  exact List.Nodup.of_map _ (names ▸ registered.distinct)

/-- What is known of each member of a level. -/
structure Explored (w : Workspace) (label : String) (e : Member × List Level) : Prop where
  named : e.1.name = (w.state e.1.state).name
  complete : (w.state e.1.state).validate = .ok ()
  nested : e.2.map Nested.info =
    ((w.state e.1.state).nestedGraphs label).map fun g => ⟨g.2, g.1, none⟩

/-- A level as compiling yields it, apart from those nested in it. -/
structure Sound (w : Workspace) (level : Level) : Prop where
  explored : ∀ e ∈ level.entries, w.Explored level.info.label e
  start : level.info.start ∈ Level.states level.entries
  closed : ∀ s ∈ Level.states level.entries, ∀ t ∈ (w.state s).successors,
    t ∈ Level.states level.entries
  reached : ∀ s ∈ Level.states level.entries, w.Reaches level.info.start s
  resolved : ∀ s ∈ Level.states level.entries, ∀ t ∈ (w.state s).outgoing,
    ∃ e ∈ level.entries, e.1.name = w.nameOf t.2

/-- What a walk adds to the members found before. -/
structure Walked (w : Workspace) (label : String) (registry : Registry) (found : Members)
    (pending : List StateId) (registry' : Registry) (new : Members) : Prop where
  grown : registry' = registry ++ Level.registrations label new
  registered : w.Registered registry → w.Registered registry'
  explored : ∀ e ∈ new, w.Explored label e
  nested : ∀ e ∈ new, ∀ l ∈ e.2, ∀ level ∈ l.levels, w.Sound level
  covered : ∀ s ∈ pending, s ∈ Level.states (found ++ new)
  closed : ∀ s ∈ Level.states new, ∀ t ∈ (w.state s).successors, t ∈ Level.states (found ++ new)
  reached : ∀ s ∈ Level.states new, ∃ p ∈ pending, w.Reaches p s

/-- What compiling a level adds to the registry, and what the level is. -/
structure Compiles (w : Workspace) (registry : Registry) (graph : String × StateId)
    (registry' : Registry) (level : Level) : Prop where
  grown : registry' = registry ++ level.registry
  registered : w.Registered registry → w.Registered registry'
  info : level.info = ⟨graph.2, graph.1, none⟩
  sound : ∀ l ∈ level.levels, w.Sound l

theorem resolveLevel_eq_ok {members : Members} :
    w.resolveLevel label members = .ok () ↔
      ∀ s ∈ Level.states members, ∀ t ∈ (w.state s).outgoing,
        ∃ e ∈ members, e.1.name = w.nameOf t.2 := by
  simp only [resolveLevel, Outcome.forM_eq_ok, Level.states, List.forall_mem_map]
  refine forall₂_congr fun e _ => forall₂_congr fun t _ => ?_
  by_cases found : ∃ e ∈ members, e.1.name = w.nameOf t.2
  · simp [found]
  · simp [found]

theorem compileBy_ok
    {find : String → Registry → Members → List StateId → Except Fault (Registry × Members)}
    {start : StateId} {level : Level}
    (walked : ∀ {members : Members}, find label registry [] [start] = .ok (registry', members) →
      w.Walked label registry [] [start] registry' members)
    (ok : w.compileBy find label registry start = .ok (registry', level)) :
    w.Compiles registry (label, start) registry' level := by
  simp only [compileBy, Outcome.bind_eq_ok, pure, Except.pure, Except.ok.injEq,
    Prod.mk.injEq] at ok
  obtain ⟨⟨_, members⟩, found, ⟨⟩, resolved, rfl, rfl⟩ := ok
  have walk := walked found
  have sound : w.Sound (.node ⟨start, label, none⟩ members) :=
    { explored := walk.explored
      start := walk.covered start List.mem_cons_self
      closed := walk.closed
      reached := by
        intro s member
        obtain ⟨p, pending, reached⟩ := walk.reached s member
        exact List.mem_singleton.mp pending ▸ reached
      resolved := resolveLevel_eq_ok.mp resolved }
  refine ⟨?_, walk.registered, rfl, Nested.forall_mem_levels_node.mpr ⟨sound, walk.nested⟩⟩
  rw [walk.grown, Level.registry_eq]
  rfl

theorem compileLevels_ok
    {compile : String → Registry → StateId → Except Fault (Registry × Level)}
    {graphs : List (String × StateId)} {levels : List Level}
    (compiles : ∀ {label registry start registry' level},
      compile label registry start = .ok (registry', level) →
      w.Compiles registry (label, start) registry' level)
    (ok : compileLevels compile registry graphs = .ok (registry', levels)) :
    registry' = registry ++ levels.flatMap Level.registry ∧
      (w.Registered registry → w.Registered registry') ∧
      levels.map Nested.info = graphs.map (fun g => ⟨g.2, g.1, none⟩) ∧
      ∀ l ∈ levels, ∀ level ∈ l.levels, w.Sound level := by
  induction graphs generalizing registry levels with
  | nil =>
    cases ok
    simp
  | cons graph graphs ih =>
    obtain ⟨label, start⟩ := graph
    simp only [compileLevels, Outcome.bind_eq_ok, pure, Except.pure, Except.ok.injEq,
      Prod.mk.injEq] at ok
    obtain ⟨⟨between, level⟩, first, ⟨_, levels⟩, rest, rfl, rfl⟩ := ok
    have head := compiles first
    obtain ⟨grown, registered, infos, sound⟩ := ih rest
    refine ⟨?_, fun before => registered (head.registered before), ?_, ?_⟩
    · rw [grown, head.grown, List.flatMap_cons, List.append_assoc]
    · rw [List.map_cons, List.map_cons, infos, head.info]
    · exact List.forall_mem_cons.mpr ⟨head.sound, sound⟩

/-- A state that is found, with the levels nested in it, before the rest of a walk. -/
theorem Walked.cons {found new : Members} {skipped rest targets : List StateId}
    {e : Member × List Level} {entered explored : Registry}
    (passed : ∀ t ∈ skipped, t ∈ Level.states found)
    (registered : w.register label registry e.1.state = .ok entered)
    (member : w.Explored label e)
    (grown : explored = entered ++ e.2.flatMap Level.registry)
    (kept : w.Registered entered → w.Registered explored)
    (sound : ∀ l ∈ e.2, ∀ level ∈ l.levels, w.Sound level)
    (offered : ∀ t, t ∈ targets → t ∈ (w.state e.1.state).successors)
    (held : ∀ t ∈ (w.state e.1.state).successors, t ∈ Level.states (found ++ [e]) ∨ t ∈ targets)
    (walked : w.Walked label explored (found ++ [e]) (targets ++ rest) registry' new) :
    w.Walked label registry found (skipped ++ e.1.state :: rest) registry' (e :: new) := by
  have move : found ++ [e] ++ new = found ++ e :: new := by simp
  obtain ⟨-, -, -, entry⟩ := register_eq_ok.mp registered
  constructor
  case grown =>
    rw [walked.grown, grown, entry, ← member.named]
    simp [Level.registrations]
  case registered => exact fun before => walked.registered (kept (before.register registered))
  case explored => exact List.forall_mem_cons.mpr ⟨member, walked.explored⟩
  case nested => exact List.forall_mem_cons.mpr ⟨sound, walked.nested⟩
  case covered =>
    intro t pending
    rcases List.mem_append.mp pending with before | pending
    · rw [Level.states_append]
      exact List.mem_append_left _ (passed t before)
    · rcases List.mem_cons.mp pending with rfl | later
      · exact Level.mem_states.mpr ⟨e, by simp, rfl⟩
      · exact move ▸ walked.covered t (List.mem_append_right _ later)
  case closed =>
    rw [← move]
    refine List.forall_mem_cons.mpr ⟨fun t leads => ?_, walked.closed⟩
    rcases held t leads with known | target
    · rw [Level.states_append]
      exact List.mem_append_left _ known
    · exact walked.covered t (List.mem_append_left _ target)
  case reached =>
    refine List.forall_mem_cons.mpr ⟨⟨_, by simp, .refl⟩, fun s later => ?_⟩
    obtain ⟨p, pending, reached⟩ := walked.reached s later
    rcases List.mem_append.mp pending with target | rest
    · exact ⟨e.1.state, by simp, .head (offered p target) reached⟩
    · exact ⟨p, by simp [rest], reached⟩

theorem walk_ok {fuel : Nat} {found found' : Members} {pending : List StateId}
    (ok : w.walk fuel label registry found pending = .ok (registry', found')) :
    ∃ new, found' = found ++ new ∧ w.Walked label registry found pending registry' new := by
  induction fuel generalizing label registry registry' found found' pending with
  | zero => cases ok
  | succ fuel ih =>
    have parts := List.takeWhile_append_dropWhile (p := w.lists found) (l := pending)
    have passed : ∀ t ∈ pending.takeWhile (w.lists found), t ∈ Level.states found :=
      fun t member => mem_states_of_lists (List.mem_takeWhile_imp member)
    rw [walk] at ok
    cases next : pending.dropWhile (w.lists found) with
    | nil =>
      simp only [next, Except.ok.injEq, Prod.mk.injEq] at ok
      obtain ⟨rfl, rfl⟩ := ok
      rw [next, List.append_nil] at parts
      refine ⟨[], (List.append_nil _).symm, ?_⟩
      constructor <;> simp [Level.registrations, Level.states]
      simpa [Level.states, parts] using passed
    | cons s rest =>
      simp only [next, Outcome.bind_eq_ok] at ok
      obtain ⟨entered, registered, ⟨⟩, complete, ⟨explored, levels⟩, nested, rest_ok⟩ := ok
      obtain ⟨new, rfl, walked⟩ := ih rest_ok
      obtain ⟨grown, kept, infos, sound⟩ := compileLevels_ok
        (compileBy_ok fun found => by
          obtain ⟨new, rfl, walked⟩ := ih found
          exact walked) nested
      refine ⟨(⟨(w.state s).name, s⟩, levels) :: new, by simp, ?_⟩
      rw [← parts, next]
      refine Walked.cons passed registered ⟨rfl, complete, infos⟩ grown kept sound ?_ ?_ walked
      · exact fun t target => (List.mem_filter.mp target).1
      · intro t leads
        cases listed : w.lists (found ++ [(⟨(w.state s).name, s⟩, levels)]) t with
        | true => exact .inl (mem_states_of_lists listed)
        | false => exact .inr (List.mem_filter.mpr ⟨leads, by simp [listed]⟩)

theorem compileBy_walk_ok {fuel : Nat} {start : StateId} {level : Level}
    (ok : w.compileBy (w.walk fuel) label registry start = .ok (registry', level)) :
    w.Compiles registry (label, start) registry' level :=
  compileBy_ok (fun found => by
    obtain ⟨new, rfl, walked⟩ := walk_ok found
    exact walked) ok

theorem compile_ok {start : StateId} {c : Compiled} (ok : w.compile label start = .ok c)
    (timeout : Option Nat) :
    w.Registered c.registry ∧
      c.registry = Level.registry (.node ⟨start, label, timeout⟩ c.members) ∧
      ∀ level ∈ Nested.levels (.node ⟨start, label, timeout⟩ c.members), w.Sound level := by
  simp only [compile, Outcome.bind_eq_ok, pure, Except.pure, Except.ok.injEq] at ok
  obtain ⟨⟨registry, level⟩, compiled, rfl⟩ := ok
  obtain ⟨grown, registered, info, sound⟩ := compileBy_walk_ok compiled
  obtain ⟨header, members⟩ := level
  obtain rfl : header = ⟨start, label, none⟩ := info
  obtain ⟨top, nested⟩ := Nested.forall_mem_levels_node.mp sound
  refine ⟨registered registered_nil, ?_, Nested.forall_mem_levels_node.mpr ⟨?_, nested⟩⟩
  · rw [grown, List.nil_append, Level.registry_eq, Level.registry_eq]
    rfl
  · exact ⟨top.explored, top.start, top.closed, top.reached, top.resolved⟩

end Workspace
end Workflow
