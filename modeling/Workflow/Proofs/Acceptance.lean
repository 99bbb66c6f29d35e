import Workflow.Proofs.Access
import Workflow.Proofs.Positions
import Workflow.Proofs.Termination

/-!
Which graphs are accepted: those that are well formed. A graph that compiles is well formed since
its states are registered once and its levels hold what can be reached. Conversely a walk of a well
formed graph is never refused. Its invariant says where the states are that are registered: nowhere
in the levels that the walk has still to come to.
-/

namespace Workflow
namespace Workspace

variable {w : Workspace} {start : StateId} {label : String} {registry : Registry}

/-- Every registered state has its name and is in a level, which is none of those ahead. -/
def Clear (w : Workspace) (start : StateId) (ahead : LevelPath → Prop) (registry : Registry) :
    Prop :=
  ∀ r ∈ registry, r.name = (w.state r.state).name ∧ ∃ q, w.Belongs start q r.state ∧ ¬ ahead q

theorem Clear.mono {ahead later : LevelPath → Prop} (clear : w.Clear start ahead registry)
    (less : ∀ q, later q → ahead q) : w.Clear start later registry := by
  intro r member
  obtain ⟨named, q, belongs, apart⟩ := clear r member
  exact ⟨named, q, belongs, fun further => apart (less q further)⟩

theorem Clear.append {ahead : LevelPath → Prop} {more : Registry}
    (clear : w.Clear start ahead registry) (rest : w.Clear start ahead more) :
    w.Clear start ahead (registry ++ more) :=
  List.forall_mem_append.mpr ⟨clear, rest⟩

/-- As `Clear` while the level at a path is walked: a state of this level has been found, and so has
one that runs the way down to a level below it. -/
structure Accounted (w : Workspace) (start : StateId) (path : LevelPath) (found : Members)
    (registry : Registry) : Prop where
  named : ∀ r ∈ registry, r.name = (w.state r.state).name
  placed : ∀ r ∈ registry, ∃ q, w.Belongs start q r.state ∧
    (q = path → r.state ∈ Level.states found) ∧
    ∀ s i, path ++ [(s, i)] <+: q → s ∈ Level.states found

theorem Accounted.of_clear {path : LevelPath} (clear : w.Clear start (path <+: ·) registry) :
    w.Accounted start path [] registry := by
  constructor
  case named =>
    intro r member
    exact (clear r member).1
  case placed =>
    intro r member
    obtain ⟨-, q, belongs, apart⟩ := clear r member
    refine ⟨q, belongs, ?_, ?_⟩
    · rintro rfl
      exact absurd List.prefix_rfl apart
    · intro s i further
      exact absurd ((List.prefix_append _ _).trans further) apart

/-- Visiting a state accounts for it and for what its nested levels register. -/
theorem Accounted.visit {path : LevelPath} {found : Members} {s : StateId} {levels : List Level}
    (label : String) (accounted : w.Accounted start path found registry)
    (belongs : w.Belongs start path s)
    (nested : ∀ r ∈ levels.flatMap Level.registry, r.name = (w.state r.state).name ∧
      ∃ q i, path ++ [(s, i)] <+: q ∧ w.Belongs start q r.state) :
    w.Accounted start path (found ++ [(⟨(w.state s).name, s⟩, levels)])
      (registry ++ [⟨(w.state s).name, s, label⟩] ++ levels.flatMap Level.registry) := by
  have here : s ∈ Level.states (found ++ [(⟨(w.state s).name, s⟩, levels)]) :=
    Level.mem_states.mpr ⟨_, List.mem_append_right _ List.mem_cons_self, rfl⟩
  have kept {t : StateId} (member : t ∈ Level.states found) :
      t ∈ Level.states (found ++ [(⟨(w.state s).name, s⟩, levels)]) := by
    rw [Level.states_append]
    exact List.mem_append_left _ member
  constructor
  case named =>
    refine List.forall_mem_append.mpr ⟨List.forall_mem_append.mpr ⟨accounted.named, ?_⟩, ?_⟩
    · intro r member
      rw [List.mem_singleton.mp member]
    · intro r member
      exact (nested r member).1
  case placed =>
    refine List.forall_mem_append.mpr ⟨List.forall_mem_append.mpr ⟨?_, ?_⟩, ?_⟩
    · intro r member
      obtain ⟨q, there, own, above⟩ := accounted.placed r member
      exact ⟨q, there, fun same => kept (own same), fun t i further => kept (above t i further)⟩
    · intro r member
      obtain rfl := List.mem_singleton.mp member
      exact ⟨path, belongs, fun _ => here, fun t i further =>
        absurd further (not_below_self path (t, i))⟩
    · intro r member
      obtain ⟨-, q, i, below, there⟩ := nested r member
      refine ⟨q, there, ?_, ?_⟩
      · rintro rfl
        exact absurd below (not_below_self q (s, i))
      · intro t j further
        cases step_unique below further
        exact here

theorem Accounted.clear_below {path : LevelPath} {found : Members} {s : StateId} (label : String)
    (accounted : w.Accounted start path found registry) (belongs : w.Belongs start path s)
    (new : s ∉ Level.states found) :
    w.Clear start (fun q => ∃ i, path ++ [(s, i)] <+: q)
      (registry ++ [⟨(w.state s).name, s, label⟩]) := by
  apply Clear.append
  · intro r member
    obtain ⟨q, there, -, above⟩ := accounted.placed r member
    refine ⟨accounted.named r member, q, there, ?_⟩
    rintro ⟨i, further⟩
    exact new (above s i further)
  · intro r member
    obtain rfl := List.mem_singleton.mp member
    refine ⟨rfl, path, belongs, ?_⟩
    rintro ⟨i, further⟩
    exact not_below_self path (s, i) further

/-- The states that compiling a level registers are in the level or in levels below it. -/
theorem placed_registry {level : Level} {path : LevelPath}
    (sound : ∀ l ∈ level.levels, w.Sound l) (unrolls : w.Unrolls start path level.info.start) :
    ∀ r ∈ level.registry, r.name = (w.state r.state).name ∧
      ∃ q, path <+: q ∧ w.Belongs start q r.state := by
  induction level using Nested.induct generalizing path with
  | step header members ih =>
    obtain ⟨top, below⟩ := Nested.forall_mem_levels_node.mp sound
    rw [Level.registry_eq]
    intro r member
    obtain ⟨e, entry, member⟩ := List.mem_flatMap.mp member
    have listed : e.1.state ∈ Level.states members := Level.mem_states.mpr ⟨e, entry, rfl⟩
    rcases List.mem_cons.mp member with rfl | inner
    · exact ⟨(top.explored e entry).named, path, List.prefix_rfl, header.start, unrolls,
        top.reached _ listed⟩
    · obtain ⟨l, nested, inner⟩ := List.mem_flatMap.mp inner
      obtain ⟨i, at_i⟩ := List.getElem?_of_mem nested
      have runs : (w.state e.1.state).nestedStarts[i]? = some l.info.start := by
        rw [← (top.explored e entry).nested_starts, List.getElem?_map, at_i]
        rfl
      have down := unrolls.nested (top.reached _ listed) runs
      obtain ⟨named, q, further, belongs⟩ :=
        ih e entry l nested (below e entry l nested) down r inner
      exact ⟨named, q, (List.prefix_append _ _).trans further, belongs⟩

theorem placed_registries {path : LevelPath} {s : StateId} {graphs : List (String × StateId)}
    {levels : List Level} (infos : levels.map Nested.info = graphs.map fun g => ⟨g.2, g.1, none⟩)
    (sound : ∀ l ∈ levels, ∀ level ∈ l.levels, w.Sound level)
    (runs : ∀ i graph, graphs[i]? = some graph → w.Unrolls start (path ++ [(s, i)]) graph.2) :
    ∀ r ∈ levels.flatMap Level.registry, r.name = (w.state r.state).name ∧
      ∃ q i, path ++ [(s, i)] <+: q ∧ w.Belongs start q r.state := by
  intro r member
  obtain ⟨l, within, member⟩ := List.mem_flatMap.mp member
  obtain ⟨i, at_i⟩ := List.getElem?_of_mem within
  have info : (levels.map Nested.info)[i]? = some l.info := by rw [List.getElem?_map, at_i]; rfl
  rw [infos, List.getElem?_map] at info
  obtain ⟨graph, at_i, header⟩ := Option.map_eq_some_iff.mp info
  have down : w.Unrolls start (path ++ [(s, i)]) l.info.start := header ▸ runs i graph at_i
  obtain ⟨named, q, further, belongs⟩ := placed_registry (sound l within) down r member
  exact ⟨named, q, i, further, belongs⟩

theorem register_complete (label : String) (good : w.WellFormed start) {path : LevelPath}
    {found : Members} {s : StateId} (accounted : w.Accounted start path found registry)
    (belongs : w.Belongs start path s) (new : s ∉ Level.states found) :
    w.register label registry s = .ok (registry ++ [⟨(w.state s).name, s, label⟩]) := by
  have newState : ∀ r ∈ registry, r.state ≠ s := by
    rintro r member rfl
    obtain ⟨q, there, own, -⟩ := accounted.placed r member
    exact new (own (good.path_unique there belongs))
  have newName : ∀ r ∈ registry, r.name ≠ (w.state s).name := by
    intro r member same
    obtain ⟨q, there, -⟩ := accounted.placed r member
    rw [accounted.named r member] at same
    exact newState r member (good.distinct ⟨q, there⟩ ⟨path, belongs⟩ same)
  exact register_eq_ok.mpr ⟨newState, newName, good.single ⟨path, belongs⟩, rfl⟩

/-- In a well-formed graph no name hides a state that was found. -/
theorem lists_of_mem (good : w.WellFormed start) {path : LevelPath} {found : Members} {s : StateId}
    (members : ∀ e ∈ found, w.Belongs start path e.1.state ∧ e.1.name = (w.state e.1.state).name)
    (member : s ∈ Level.states found) : w.lists found s = true := by
  refine lists_of_distinct (fun e entry => (members e entry).2) ?_ member
  intro e entry e' entry' same
  exact good.distinct ⟨path, (members e entry).1⟩ ⟨path, (members e' entry').1⟩ same

/-- Levels that lie side by side are compiled one after the other if each can be compiled while
neither it nor a level below it has anything registered. -/
theorem compileLevels_complete {path : LevelPath} {s : StateId} {k : Nat}
    {compile : String → Registry → StateId → Except Fault (Registry × Level)}
    {graphs : List (String × StateId)}
    (runs : ∀ i graph, graphs[i]? = some graph → w.Unrolls start (path ++ [(s, k + i)]) graph.2)
    (compiles : ∀ {label registry start registry' level},
      compile label registry start = .ok (registry', level) →
      w.Compiles registry (label, start) registry' level)
    (ready : ∀ {path : LevelPath} {first : StateId} (label : String) (more : Registry),
      w.Unrolls start path first → w.Clear start (path <+: ·) (registry ++ more) →
      ∃ result, compile label (registry ++ more) first = .ok result)
    (clear : w.Clear start (fun q => ∃ i, k ≤ i ∧ path ++ [(s, i)] <+: q) registry) :
    ∃ result, compileLevels compile registry graphs = .ok result := by
  induction graphs generalizing k registry with
  | nil => exact ⟨_, rfl⟩
  | cons graph graphs ih =>
    obtain ⟨label, first⟩ := graph
    have unrolls : w.Unrolls start (path ++ [(s, k)]) first := runs 0 (label, first) rfl
    have ahead : w.Clear start (path ++ [(s, k)] <+: ·) registry :=
      clear.mono fun q further => ⟨k, Nat.le_refl k, further⟩
    obtain ⟨⟨registry', level⟩, compiled⟩ := ready label [] unrolls (by rwa [List.append_nil])
    rw [List.append_nil] at compiled
    obtain ⟨rfl, -, info, sound⟩ := compiles compiled
    have placed := placed_registry sound (by rw [info]; exact unrolls)
    -- What the first level registered is below its own step, which is behind the steps to come.
    have later : w.Clear start (fun q => ∃ i, k + 1 ≤ i ∧ path ++ [(s, i)] <+: q)
        (registry ++ level.registry) := by
      apply Clear.append
      · apply clear.mono
        rintro q ⟨i, later, further⟩
        exact ⟨i, by omega, further⟩
      · intro r member
        obtain ⟨named, q, below, belongs⟩ := placed r member
        refine ⟨named, q, belongs, ?_⟩
        rintro ⟨i, later, further⟩
        cases step_unique below further
        omega
    have rest : ∃ result,
        compileLevels compile (registry ++ level.registry) graphs = .ok result := by
      refine ih ?_ ?_ later
      · intro i graph at_i
        rw [Nat.add_right_comm]
        exact runs (i + 1) graph at_i
      · intro path first label more unrolls clear
        rw [List.append_assoc] at clear ⊢
        exact ready label _ unrolls clear
    obtain ⟨⟨registry', levels⟩, rest⟩ := rest
    exact ⟨_, by rw [compileLevels, compiled]; simp only [bind, Except.bind, rest]; rfl⟩

/-- What is known of a walk of the level at a path that has found some of its states. -/
structure Walking (w : Workspace) (start : StateId) (path : LevelPath) (first : StateId)
    (registry : Registry) (found : Members) (pending : List StateId) : Prop where
  unrolls : w.Unrolls start path first
  reached : ∀ s ∈ pending, w.Reaches first s
  members : ∀ e ∈ found, w.Belongs start path e.1.state ∧ e.1.name = (w.state e.1.state).name
  accounted : w.Accounted start path found registry

theorem Walking.initial {path : LevelPath} {first : StateId} (unrolls : w.Unrolls start path first)
    (clear : w.Clear start (path <+: ·) registry) :
    w.Walking start path first registry [] [first] := by
  refine ⟨unrolls, ?_, by simp, Accounted.of_clear clear⟩
  intro s pending
  rw [List.mem_singleton.mp pending]
  exact .refl

section Step

variable {path : LevelPath} {first s : StateId} {found : Members} {pending rest : List StateId}
  (walking : w.Walking start path first registry found pending)
  (next : pending.dropWhile (w.lists found) = s :: rest)
include walking next

theorem Walking.later {t : StateId} (member : t ∈ s :: rest) : w.Reaches first t := by
  rw [← next] at member
  exact walking.reached t ((List.dropWhile_sublist _).subset member)

theorem Walking.belongs : w.Belongs start path s :=
  ⟨first, walking.unrolls, walking.later next List.mem_cons_self⟩

theorem Walking.new (good : w.WellFormed start) : s ∉ Level.states found := by
  intro member
  have listed := lists_of_mem good walking.members member
  have unlisted := List.head?_dropWhile_not (w.lists found) pending
  simp [next, listed] at unlisted

theorem Walking.runs (label : String) {i : Nat} {graph : String × StateId}
    (at_i : ((w.state s).nestedGraphs label)[i]? = some graph) :
    w.Unrolls start (path ++ [(s, i)]) graph.2 := by
  apply walking.unrolls.nested (walking.later next List.mem_cons_self)
  rw [← State.nestedGraphs_starts _ label, List.getElem?_map, at_i]
  rfl

theorem Walking.step (label : String) {levels : List Level} {targets : List StateId}
    (infos : levels.map Nested.info =
      ((w.state s).nestedGraphs label).map fun g => ⟨g.2, g.1, none⟩)
    (sound : ∀ l ∈ levels, ∀ level ∈ l.levels, w.Sound level)
    (offered : ∀ t ∈ targets, t ∈ (w.state s).successors) :
    w.Walking start path first
      (registry ++ [⟨(w.state s).name, s, label⟩] ++ levels.flatMap Level.registry)
      (found ++ [(⟨(w.state s).name, s⟩, levels)]) (targets ++ rest) := by
  have here := walking.belongs next
  have below := placed_registries infos sound fun i graph => walking.runs next label
  refine ⟨walking.unrolls, ?_, ?_, walking.accounted.visit label here below⟩
  · refine List.forall_mem_append.mpr ⟨?_, ?_⟩
    · intro t target
      exact (walking.later next List.mem_cons_self).tail (offered t target)
    · intro t pending
      exact walking.later next (List.mem_cons_of_mem _ pending)
  · refine List.forall_mem_append.mpr ⟨walking.members, ?_⟩
    intro e member
    obtain rfl := List.mem_singleton.mp member
    exact ⟨here, rfl⟩

end Step

theorem compileBy_complete (good : w.WellFormed start) {path : LevelPath} {first : StateId}
    {find : String → Registry → Members → List StateId → Except Fault (Registry × Members)}
    {registry' : Registry} {members : Members} (unrolls : w.Unrolls start path first)
    (found : find label registry [] [first] = .ok (registry', members))
    (walked : w.Walked label registry [] [first] registry' members) :
    ∃ result, w.compileBy find label registry first = .ok result := by
  have all : ∀ s, w.Reaches first s → s ∈ Level.states members := by
    intro s reaches
    induction reaches with
    | refl => exact walked.covered first List.mem_cons_self
    | tail _ leads ih => exact walked.closed _ ih _ leads
  have resolved : w.resolveLevel label members = .ok () := by
    apply resolveLevel_eq_ok.mpr
    intro s member t leads
    obtain ⟨p, pending, reaches⟩ := walked.reached s member
    obtain rfl := List.mem_singleton.mp pending
    obtain ⟨u, reaches', same⟩ := good.resolved unrolls reaches leads
    obtain ⟨e, entry, rfl⟩ := Level.mem_states.mp (all u reaches')
    exact ⟨e, entry, (walked.explored e entry).named.trans same⟩
  exact ⟨_, by rw [compileBy, found]; simp only [bind, Except.bind, resolved]; rfl⟩

/-- A walk of a well-formed graph is not refused. -/
theorem walk_complete (good : w.WellFormed start) {steps : Nat} {path : LevelPath}
    {first : StateId} {found : Members} {pending : List StateId}
    (enough : (w.unregistered registry).card < steps)
    (walking : w.Walking start path first registry found pending) :
    ∃ result, w.walk steps label registry found pending = .ok result := by
  induction steps generalizing label registry path first found pending with
  | zero => omega
  | succ steps ih =>
    rw [walk]
    cases next : pending.dropWhile (w.lists found) with
    | nil => exact ⟨_, rfl⟩
    | cons s rest =>
    have here := walking.belongs next
    have new := walking.new next good
    have registered := register_complete label good walking.accounted here new
    have complete := good.complete ⟨path, here⟩
    have fewer := card_unregistered_lt registered complete
    generalize entry : registry ++ [⟨(w.state s).name, s, label⟩] = entered at registered fewer
    have left (more : Registry) := w.card_unregistered_append_le entered more
    -- The induction is on the steps, so that it also covers the walks of the levels nested here.
    have ready {path : LevelPath} {first : StateId} (label : String) (more : Registry)
        (unrolls : w.Unrolls start path first)
        (clear : w.Clear start (path <+: ·) (entered ++ more)) :
        ∃ result, w.compileBy (w.walk steps) label (entered ++ more) first = .ok result := by
      have enough : (w.unregistered (entered ++ more)).card < steps := by
        have := left more
        omega
      have found : ∃ result, w.walk steps label (entered ++ more) [] [first] = .ok result :=
        ih enough (.initial unrolls clear)
      obtain ⟨⟨registry', members⟩, found⟩ := found
      obtain ⟨new, rfl, walked⟩ := walk_ok found
      exact compileBy_complete good unrolls found walked
    have clear : w.Clear start (fun q => ∃ i, 0 ≤ i ∧ path ++ [(s, i)] <+: q) entered := by
      rw [← entry]
      apply (walking.accounted.clear_below label here new).mono
      rintro q ⟨i, -, further⟩
      exact ⟨i, further⟩
    have nested : ∃ result, compileLevels (w.compileBy (w.walk steps)) entered
        ((w.state s).nestedGraphs label) = .ok result := by
      refine compileLevels_complete ?_ compileBy_walk_ok ready clear
      intro i graph at_i
      rw [Nat.zero_add]
      exact walking.runs next label at_i
    obtain ⟨⟨explored, levels⟩, nested⟩ := nested
    obtain ⟨rfl, -, infos, sound⟩ := compileLevels_ok compileBy_walk_ok nested
    simp only [registered, complete, nested, bind, Except.bind]
    have fuel : (w.unregistered (entered ++ levels.flatMap Level.registry)).card < steps := by
      have := left (levels.flatMap Level.registry)
      omega
    rw [← entry] at fuel ⊢
    apply ih fuel (walking.step next label infos sound ?_)
    intro t target
    exact (List.mem_filter.mp target).1

theorem compile_complete (label : String) (good : w.WellFormed start) :
    ∃ c, w.compile label start = .ok c := by
  have enough : (w.unregistered []).card < w.states.size + 1 :=
    Nat.lt_succ_of_le (w.card_unregistered_le [])
  have nothing : w.Clear start ([] <+: ·) [] := by simp [Clear]
  have found : ∃ result, w.walk (w.states.size + 1) label [] [] [start] = .ok result :=
    walk_complete good enough (.initial .top nothing)
  obtain ⟨⟨registry, members⟩, found⟩ := found
  obtain ⟨new, rfl, walked⟩ := walk_ok found
  obtain ⟨⟨registry, level⟩, compiled⟩ := compileBy_complete good .top found walked
  exact ⟨_, by rw [compile, compileLevel, compiled]; rfl⟩

/-- A state of the unrolled graph is listed by the compiled level that the way down leads to. -/
theorem Belongs.listed {level : Level} (sound : ∀ l ∈ level.levels, w.Sound l) {path : LevelPath}
    {s : StateId} (belongs : w.Belongs level.info.start path s) :
    ∃ l, Level.at? path level = some l ∧ w.Sound l ∧ s ∈ Level.states l.entries := by
  obtain ⟨first, unrolls, reaches⟩ := belongs
  obtain ⟨l, down, within, rfl⟩ := unrolls.at? sound
  exact ⟨l, down, sound l within, (sound l within).mem_states_iff.mpr reaches⟩

/-- A graph that compiles is well formed. -/
theorem compile_wellFormed {c : Compiled} (ok : w.compile label start = .ok c) :
    w.WellFormed start := by
  obtain ⟨registered, grown, sound⟩ := compile_ok ok none
  generalize same : (.node ⟨start, label, none⟩ c.members : Level) = level at grown sound
  obtain rfl : level.info.start = start := same ▸ rfl
  have nodup : (Level.allStates level).Nodup := by
    rw [← Level.map_state_registry, ← grown]
    exact registered.nodup_states
  have entered : ∀ {s : StateId}, w.Occurs level.info.start s → ∃ r ∈ c.registry, r.state = s := by
    rintro s ⟨path, belongs⟩
    obtain ⟨l, down, -, member⟩ := belongs.listed sound
    have occurs := Level.mem_allStates_of_at? down member
    rwa [← Level.map_state_registry, ← grown, List.mem_map] at occurs
  constructor
  case disjoint =>
    intro p q a b s unrolls unrolls' different reaches reaches'
    obtain ⟨l, down, -, member⟩ := Belongs.listed sound ⟨a, unrolls, reaches⟩
    obtain ⟨l', down', -, member'⟩ := Belongs.listed sound ⟨b, unrolls', reaches'⟩
    exact different (Level.path_unique nodup down down' member member')
  case complete =>
    rintro s ⟨path, belongs⟩
    obtain ⟨l, -, sound, member⟩ := belongs.listed sound
    obtain ⟨e, entry, rfl⟩ := Level.mem_states.mp member
    exact (sound.explored e entry).complete
  case distinct =>
    intro s t occurs occurs' equal
    obtain ⟨r, member, rfl⟩ := entered occurs
    obtain ⟨r', member', rfl⟩ := entered occurs'
    rw [← registered.named r member, ← registered.named r' member'] at equal
    rw [List.inj_on_of_nodup_map registered.distinct member member' equal]
  case single =>
    intro s occurs
    obtain ⟨r, member, rfl⟩ := entered occurs
    exact registered.named r member ▸ registered.single r member
  case resolved =>
    intro p a s field target unrolls reaches leads
    obtain ⟨l, down, within, rfl⟩ := unrolls.at? sound
    have sound := sound l within
    obtain ⟨e, entry, named⟩ := sound.resolved s (sound.mem_states_iff.mpr reaches) _ leads
    refine ⟨e.1.state, sound.mem_states_iff.mp (Level.mem_states.mpr ⟨e, entry, rfl⟩), ?_⟩
    exact (sound.explored e entry).named.symm.trans named

end Workspace

namespace Build

/-- The states of a graph that was not compiled before can be asked for exactly if it is well
formed. -/
theorem level_ok_iff_wellFormed {w : Workspace} {g : GraphId}
    (fresh : (w.graph g).compiled = none) :
    (∃ level w', Build.level ⟨g, []⟩ w = .ok level w') ↔ w.WellFormed (w.graph g).start := by
  constructor
  · rintro ⟨level, w', ok⟩
    obtain ⟨c, compiled, -⟩ := level_eq_ok.mp ok
    rw [Workspace.compiled_of_fresh fresh] at compiled
    exact Workspace.compile_wellFormed compiled
  · intro good
    obtain ⟨c, compiled⟩ := Workspace.compile_complete (w.graph g).label good
    rw [← Workspace.compiled_of_fresh fresh] at compiled
    exact ⟨_, _, level_eq_ok.mpr ⟨c, compiled, rfl, rfl⟩⟩

theorem approval_wellFormed :
    (Workspace.approval.graph ⟨0⟩).compiled = none ∧
      Workspace.approval.WellFormed (Workspace.approval.graph ⟨0⟩).start :=
  ⟨rfl, (level_ok_iff_wellFormed rfl).mp ⟨_, _, rfl⟩⟩

end Build
end Workflow
