import Workflow.Proofs.Completeness
import Workflow.Proofs.Positions
import Workflow.Proofs.Termination
import Workflow.Proofs.Wiring

/-!
Workspaces that correspond. Of another workspace a compilation reads only what the states do that it
comes to, whether their names are distinct and whether a name hides another state of its scope.
Where two workspaces agree in that, be it under other names, it takes the same steps in both: to the
same states in the same order, in levels of the same form. The induction is on the steps of the walk
in the first workspace; how far the second is from having no state left bounds the steps there.
-/

namespace Workflow

/-- What a state does, without the open ends that the branches of a choice had when they were
attached. -/
def Kind.untailed : Kind → Kind
  | choice rules _ => choice rules []
  | kind => kind

/-- Whether two states do the same and lead to the same, whatever they are called, wherever they are
defined and however far their branches have got. -/
structure State.Alike (s t : State) : Prop where
  common : t.common = s.common
  kind : t.kind.untailed = s.kind.untailed
  exit : t.exit = s.exit
  retries : t.retries = s.retries
  catches : t.catches = s.catches

namespace State.Alike

variable {s t : State}

theorem kind_cases (alike : s.Alike t) : t.kind = s.kind ∨
    ∃ rules tails tails', s.kind = .choice rules tails ∧ t.kind = .choice rules tails' := by
  have same := alike.kind
  unfold Kind.untailed at same
  split at same
  case h_1 rules tails there =>
    split at same
    case h_1 rules' tails' here =>
      obtain ⟨rfl, -⟩ := Kind.choice.inj same
      exact .inr ⟨rules, tails', tails, here, there⟩
    case h_2 other => exact absurd same.symm (other _ _)
  case h_2 other =>
    split at same
    case h_1 => exact absurd same (other _ _)
    case h_2 => exact .inl same

theorem type_eq (alike : s.Alike t) : t.type? = s.type? := by
  rw [type?, type?]
  rcases alike.kind_cases with same | ⟨rules, tails, tails', here, there⟩
  · rw [same]
  · rw [here, there, Kind.type?, Kind.type?]

theorem outgoing_eq (alike : s.Alike t) : t.outgoing = s.outgoing := by
  rw [outgoing, outgoing, onward_of_exit alike.exit, alike.catches]
  rcases alike.kind_cases with same | ⟨rules, tails, tails', here, there⟩
  · rw [same]
  · rw [here, there]

theorem nestedStarts_eq (alike : s.Alike t) : t.nestedStarts = s.nestedStarts := by
  rw [nestedStarts, nestedStarts]
  rcases alike.kind_cases with same | ⟨rules, tails, tails', here, there⟩
  · rw [same]
  · rw [here, there]

theorem statements_eq (alike : s.Alike t) : t.statements = s.statements := by
  rw [statements, statements]
  rcases alike.kind_cases with same | ⟨rules, tails, tails', here, there⟩
  · rw [same]
  · rw [here, there]

theorem complete (alike : s.Alike t) (complete : s.Complete) : t.Complete := by
  have type := alike.type_eq
  constructor
  case exit =>
    rw [type, isTerminal, type, alike.exit]
    exact complete.exit
  case kind =>
    have kept := complete.kind
    rcases alike.kind_cases with same | ⟨rules, tails, tails', here, there⟩
    · rwa [same]
    · rw [here, Kind.Complete] at kept
      rwa [there, Kind.Complete]

end State.Alike

namespace Level

/-- A level without its labels, its states under other names. -/
def under (new : String → String) : Level → Nested (StateId × Option Nat) Member :=
  Nested.map (fun header => (header.start, header.timeout)) fun m => ⟨new m.name, m.state⟩

def membersUnder (new : String → String) (members : Members) :
    List (Member × List (Nested (StateId × Option Nat) Member)) :=
  members.map fun e => (⟨new e.1.name, e.1.state⟩, e.2.map (under new))

theorem under_node (new : String → String) (header : Header) (members : Members) :
    under new (.node header members) =
      .node (header.start, header.timeout) (membersUnder new members) :=
  Nested.map_node ..

variable {new : String → String} {members members' : Members}

theorem states_of_under (same : membersUnder id members' = membersUnder new members) :
    states members' = states members := by
  have listed := congrArg (List.map (·.1.state)) same
  rw [membersUnder, membersUnder, List.map_map, List.map_map] at listed
  exact listed

theorem forall₂_levels {levels levels' : List Level}
    (same : levels'.map (under id) = levels.map (under new)) :
    List.Forall₂ (fun l l' => under id l' = under new l) levels levels' := by
  have each : List.Forall₂ (fun t t' => t' = t) (levels.map (under new)) (levels'.map (under id)) :=
    same ▸ List.forall₂_refl _
  rwa [List.forall₂_map_left_iff, List.forall₂_map_right_iff] at each

theorem forall₂_members (same : membersUnder id members' = membersUnder new members) :
    List.Forall₂ (fun e e' => e'.1 = ⟨new e.1.name, e.1.state⟩ ∧
      e'.2.map (under id) = e.2.map (under new)) members members' := by
  have each : List.Forall₂ (fun t t' => t' = t) (membersUnder new members)
    (membersUnder id members') := same ▸ List.forall₂_refl _
  rw [membersUnder, membersUnder, List.forall₂_map_left_iff, List.forall₂_map_right_iff] at each
  exact each.imp fun _ _ => Prod.mk.inj

end Level

namespace Workspace

/-- Whether some states of a workspace are alike in another one, where they have new names: these
are distinct, none hides another state of its scope, and transitions follow. -/
structure Mirrors (w v : Workspace) (states : List StateId) (new : String → String) : Prop where
  alike : ∀ s ∈ states, (w.state s).Alike (v.state s)
  named : ∀ s ∈ states, (v.state s).name = new (w.state s).name
  distinct : ∀ s ∈ states, ∀ t ∈ states, (v.state s).name = (v.state t).name → s = t
  single : ∀ s ∈ states, ((v.scope (v.state s).scope).named (v.state s).name).length ≤ 1
  leads : ∀ s ∈ states, ∀ t ∈ (w.state s).outgoing, v.nameOf t.2 = new (w.nameOf t.2)

variable {w v : Workspace} {states : List StateId} {new : String → String}

theorem Mirrors.successors_eq (mirrors : w.Mirrors v states new) {s : StateId}
    (known : s ∈ states) : (v.state s).successors = (w.state s).successors := by
  rw [State.successors, State.successors, (mirrors.alike s known).outgoing_eq]

theorem Mirrors.validate_eq_ok (mirrors : w.Mirrors v states new) {s : StateId}
    (known : s ∈ states) (complete : (w.state s).validate = .ok ()) :
    (v.state s).validate = .ok () :=
  State.validate_eq_ok.mpr
    ((mirrors.alike s known).complete (State.validate_eq_ok.mp complete))

/-- States that have one name here would have one name there. -/
theorem Mirrors.distinct_before (mirrors : w.Mirrors v states new) :
    ∀ s ∈ states, ∀ t ∈ states, (w.state s).name = (w.state t).name → s = t := by
  intro s known t known' same
  apply mirrors.distinct s known t known'
  rw [mirrors.named s known, mirrors.named t known', same]

/-- Where names are distinct a level lists the states that it has. -/
theorem lists_eq_mem {found : Members}
    (distinct : ∀ s ∈ states, ∀ t ∈ states, (w.state s).name = (w.state t).name → s = t)
    (named : ∀ e ∈ found, e.1.state ∈ states ∧ e.1.name = (w.state e.1.state).name) :
    w.lists found = fun s => decide (s ∈ Level.states found) := by
  funext s
  by_cases member : s ∈ Level.states found
  · rw [decide_eq_true member]
    refine lists_of_distinct (fun e entry => (named e entry).2) ?_ member
    intro e entry e' entry' same
    exact distinct _ (named e entry).1 _ (named e' entry').1 same
  · rw [decide_eq_false member]
    exact Bool.eq_false_iff.mpr fun listed => member (mem_states_of_lists listed)

/-- Whether the states that were registered in one workspace were registered in another one, in the
same order, where there are fewer left than there are steps to take. -/
structure Entered (w v : Workspace) (states : List StateId) (new : String → String) (steps : Nat)
    (registry registry' : Registry) : Prop where
  same : registry'.map (fun r => (⟨r.name, r.state⟩ : Member)) =
    registry.map fun r => ⟨new r.name, r.state⟩
  named : ∀ r ∈ registry, r.state ∈ states ∧ r.name = (w.state r.state).name
  left : (v.unregistered registry').card < steps

/-- Whether the states that were found in a level of one workspace were found in a level of another
one, in the same order and with the same levels nested in them. -/
structure Found (w : Workspace) (states : List StateId) (new : String → String)
    (found found' : Members) : Prop where
  same : Level.membersUnder id found' = Level.membersUnder new found
  named : ∀ e ∈ found, e.1.state ∈ states ∧ e.1.name = (w.state e.1.state).name

theorem found_nil : w.Found states new [] [] := ⟨rfl, by simp⟩

section Steps

variable (mirrors : w.Mirrors v states new) {steps : Nat} {label : String} (label' : String)
  {registry registry' explored : Registry} {found found' : Members}
include mirrors

theorem Found.named' (known : w.Found states new found found') :
    ∀ e ∈ found', e.1.state ∈ states ∧ e.1.name = (v.state e.1.state).name := by
  intro e' entry
  obtain ⟨e, entry, same, -⟩ :=
    Outcome.exists_of_forall₂_right (Level.forall₂_members known.same) entry
  obtain ⟨known, named⟩ := known.named e entry
  rw [same]
  exact ⟨known, (congrArg new named).trans (mirrors.named _ known).symm⟩

theorem Found.lists_eq (known : w.Found states new found found') :
    v.lists found' = w.lists found := by
  rw [lists_eq_mem mirrors.distinct (known.named' mirrors),
    lists_eq_mem mirrors.distinct_before known.named, Level.states_of_under known.same]

theorem Found.append (known : w.Found states new found found') {s : StateId}
    (member : s ∈ states) {levels levels' : List Level}
    (same : levels'.map (Level.under id) = levels.map (Level.under new)) :
    w.Found states new (found ++ [(⟨(w.state s).name, s⟩, levels)])
      (found' ++ [(⟨(v.state s).name, s⟩, levels')]) := by
  constructor
  case same =>
    rw [Level.membersUnder, Level.membersUnder, List.map_append, List.map_append]
    refine congrArg₂ _ known.same ?_
    rw [List.map_singleton, List.map_singleton, same, ← mirrors.named s member]
    rfl
  case named => exact List.forall_mem_append.mpr ⟨known.named, by simpa using member⟩

/-- A state that is registered here can be registered there. -/
theorem Entered.register (entered : w.Entered v states new (steps + 1) registry registry')
    {s : StateId} (member : s ∈ states)
    (ok : w.register label registry s = .ok explored)
    (complete : (w.state s).validate = .ok ()) :
    ∃ explored', v.register label' registry' s = .ok explored' ∧
      w.Entered v states new steps explored explored' := by
  obtain ⟨newState, newName, -, rfl⟩ := register_eq_ok.mp ok
  have origin : ∀ r' ∈ registry', ∃ r ∈ registry, r'.name = new r.name ∧ r'.state = r.state := by
    intro r' listed
    have listed : (⟨r'.name, r'.state⟩ : Member) ∈ registry.map fun r => ⟨new r.name, r.state⟩ :=
      entered.same ▸ List.mem_map_of_mem listed
    obtain ⟨r, listed, same⟩ := List.mem_map.mp listed
    exact ⟨r, listed, (Member.mk.inj same).1.symm, (Member.mk.inj same).2.symm⟩
  have registered : v.register label' registry' s =
      .ok (registry' ++ [⟨(v.state s).name, s, label'⟩]) := by
    refine register_eq_ok.mpr ⟨?_, ?_, mirrors.single s member, rfl⟩
    · intro r' listed
      obtain ⟨r, listed, -, same⟩ := origin r' listed
      rw [same]
      exact newState r listed
    · intro r' listed same
      obtain ⟨r, listed, called, -⟩ := origin r' listed
      obtain ⟨known, named⟩ := entered.named r listed
      rw [called, named, ← mirrors.named _ known] at same
      exact newState r listed (mirrors.distinct _ known _ member same)
  refine ⟨_, registered, ?_⟩
  constructor
  case same =>
    rw [List.map_append, List.map_append, entered.same, List.map_singleton, List.map_singleton,
      mirrors.named s member]
  case named => exact List.forall_mem_append.mpr ⟨entered.named, by simpa using member⟩
  case left =>
    have fewer := card_unregistered_lt registered (mirrors.validate_eq_ok member complete)
    have left := entered.left
    omega

theorem resolveLevel_mirrors (known : w.Found states new found found')
    (resolved : w.resolveLevel label found = .ok ()) : v.resolveLevel label' found' = .ok () := by
  rw [resolveLevel_eq_ok] at resolved ⊢
  intro s listed t leads
  rw [Level.states_of_under known.same] at listed
  obtain ⟨own, entry, rfl⟩ := Level.mem_states.mp listed
  obtain ⟨member, -⟩ := known.named own entry
  rw [(mirrors.alike _ member).outgoing_eq] at leads
  obtain ⟨e, entry, called⟩ := resolved _ listed t leads
  have there : e.1.state ∈ Level.states found' := by
    rw [Level.states_of_under known.same]
    exact Level.mem_states.mpr ⟨e, entry, rfl⟩
  obtain ⟨e', entry', same⟩ := Level.mem_states.mp there
  obtain ⟨-, named'⟩ := known.named' mirrors e' entry'
  obtain ⟨known, named⟩ := known.named e entry
  refine ⟨e', entry', ?_⟩
  rw [named', same, mirrors.named _ known, ← named, called, mirrors.leads _ member t leads]

theorem compileBy_mirrors
    {find find' : String → Registry → Members → List StateId → Except Fault (Registry × Members)}
    {start : StateId} {level : Level}
    (walks : ∀ {members}, find label registry [] [start] = .ok (explored, members) →
      ∃ explored' members', find' label' registry' [] [start] = .ok (explored', members') ∧
        w.Entered v states new steps explored explored' ∧ w.Found states new members members')
    (ok : w.compileBy find label registry start = .ok (explored, level)) :
    ∃ explored' level', v.compileBy find' label' registry' start = .ok (explored', level') ∧
      w.Entered v states new steps explored explored' ∧
      level'.under id = level.under new := by
  simp only [compileBy, Outcome.bind_eq_ok, pure, Except.pure, Except.ok.injEq,
    Prod.mk.injEq] at ok
  obtain ⟨⟨_, members⟩, walked, ⟨⟩, resolved, rfl, rfl⟩ := ok
  obtain ⟨explored', members', walked', entered, known⟩ := walks walked
  have resolved' : v.resolveLevel label' members' = .ok () :=
    resolveLevel_mirrors mirrors label' known resolved
  refine ⟨explored', .node ⟨start, label', none⟩ members', ?_, entered, ?_⟩
  · rw [compileBy, walked']
    simp only [bind, Except.bind, resolved']
    rfl
  · rw [Level.under_node, Level.under_node, known.same]

omit mirrors in
theorem compileLevels_mirrors
    {compile compile' : String → Registry → StateId → Except Fault (Registry × Level)}
    {graphs graphs' : List (String × StateId)} {levels : List Level}
    (starts : graphs'.map (·.2) = graphs.map (·.2))
    (compiles : ∀ {label registry start explored level},
      compile label registry start = .ok (explored, level) →
      w.Compiles registry (label, start) explored level)
    (follows : ∀ {label} label' {registry registry' start explored level},
      w.Entered v states new steps registry registry' →
      compile label registry start = .ok (explored, level) →
      (∀ r ∈ explored, r.state ∈ states) →
      ∃ explored' level', compile' label' registry' start = .ok (explored', level') ∧
        w.Entered v states new steps explored explored' ∧ level'.under id = level.under new)
    (entered : w.Entered v states new steps registry registry')
    (ok : compileLevels compile registry graphs = .ok (explored, levels))
    (within : ∀ r ∈ explored, r.state ∈ states) :
    ∃ explored' levels', compileLevels compile' registry' graphs' = .ok (explored', levels') ∧
      w.Entered v states new steps explored explored' ∧
      levels'.map (Level.under id) = levels.map (Level.under new) := by
  induction graphs generalizing registry registry' graphs' levels with
  | nil =>
    obtain rfl := List.map_eq_nil_iff.mp starts
    cases ok
    exact ⟨_, _, rfl, entered, rfl⟩
  | cons graph graphs ih =>
    obtain ⟨label, start⟩ := graph
    obtain ⟨⟨label', start'⟩, graphs', rfl, same, others⟩ := List.map_eq_cons_iff.mp starts
    obtain rfl : start' = start := same
    simp only [compileLevels, Outcome.bind_eq_ok, pure, Except.pure, Except.ok.injEq,
      Prod.mk.injEq] at ok
    obtain ⟨⟨between, level⟩, first, ⟨_, levels⟩, rest, rfl, rfl⟩ := ok
    obtain ⟨rfl, -⟩ := compileLevels_ok compiles rest
    have earlier : ∀ r ∈ between, r.state ∈ states :=
      fun r listed => within r (List.mem_append_left _ listed)
    obtain ⟨between', level', first', entered', level_eq⟩ :=
      follows label' entered first earlier
    obtain ⟨explored', levels', rest', last, levels_eq⟩ := ih others entered' rest
    refine ⟨explored', level' :: levels', ?_, last, ?_⟩
    · rw [compileLevels, first']
      simp only [bind, Except.bind, rest']
      rfl
    · rw [List.map_cons, List.map_cons, level_eq, levels_eq]

/-- A walk that succeeds here succeeds there and finds the same. -/
theorem walk_mirrors {fuel : Nat} {pending : List StateId} {members : Members}
    (entered : w.Entered v states new steps registry registry')
    (known : w.Found states new found found')
    (ok : w.walk fuel label registry found pending = .ok (explored, members))
    (within : ∀ r ∈ explored, r.state ∈ states) :
    ∃ explored' members',
      v.walk steps label' registry' found' pending = .ok (explored', members') ∧
        w.Entered v states new steps explored explored' ∧ w.Found states new members members' := by
  induction fuel generalizing steps label label' registry registry' explored found found' members
    pending with
  | zero => cases ok
  | succ fuel ih =>
    cases steps with
    | zero => exact absurd entered.left (Nat.not_lt_zero _)
    | succ steps =>
    rw [walk] at ok
    rw [walk, known.lists_eq mirrors]
    cases next : pending.dropWhile (w.lists found) with
    | nil =>
      simp only [next, Except.ok.injEq, Prod.mk.injEq] at ok
      obtain ⟨rfl, rfl⟩ := ok
      exact ⟨_, _, rfl, entered, known⟩
    | cons s rest =>
      simp only [next, Outcome.bind_eq_ok] at ok
      obtain ⟨earlier, registered, ⟨⟩, complete, ⟨between, levels⟩, nested, ok⟩ := ok
      obtain ⟨new', rfl, walked⟩ := walk_ok ok
      obtain ⟨grown, -⟩ := compileLevels_ok compileBy_walk_ok nested
      have later : ∀ r ∈ between, r.state ∈ states :=
        fun r listed => within r (walked.grown ▸ List.mem_append_left _ listed)
      have member : s ∈ states := by
        obtain ⟨-, -, -, rfl⟩ := register_eq_ok.mp registered
        exact later ⟨(w.state s).name, s, label⟩ (grown ▸ by simp)
      obtain ⟨earlier', registered', entered'⟩ :=
        entered.register mirrors label' member registered complete
      have starts : ((v.state s).nestedGraphs label').map (·.2) =
          ((w.state s).nestedGraphs label).map (·.2) := by
        rw [State.nestedGraphs_starts, State.nestedGraphs_starts,
          (mirrors.alike s member).nestedStarts_eq]
      -- The induction is on the steps, so that it also covers the walks of the levels nested here.
      have nested' : ∃ between' levels', compileLevels (v.compileBy (v.walk steps)) earlier'
            ((v.state s).nestedGraphs label') = .ok (between', levels') ∧
          w.Entered v states new steps between between' ∧
          levels'.map (Level.under id) = levels.map (Level.under new) := by
        refine compileLevels_mirrors starts compileBy_walk_ok ?_ entered' nested later
        intro label label' registry registry' start explored level entered ok within
        exact compileBy_mirrors mirrors label'
          (fun walked => ih label' entered found_nil walked within) ok
      obtain ⟨between', levels', nested', entered', levels_eq⟩ := nested'
      have known' := known.append mirrors member levels_eq
      obtain ⟨explored', members', ok', last, all⟩ := ih label' entered' known' ok within
      refine ⟨explored', members', ?_, ⟨last.same, last.named, Nat.lt_succ_of_lt last.left⟩, all⟩
      simp only [bind, Except.bind, registered', mirrors.validate_eq_ok member complete, nested',
        known'.lists_eq mirrors, mirrors.successors_eq member]
      exact ok'

end Steps

/-- A graph that compiles in a workspace compiles in one that mirrors its states: to the same states
in the same order, in levels of the same form under the new names. -/
theorem compile_mirrors {g h : Graph} {c : Compiled} (ok : w.compile g.label g.start = .ok c)
    (mirrors : w.Mirrors v (c.registry.map (·.state)) new) (start : h.start = g.start)
    (timeout : h.timeout = g.timeout) :
    ∃ c', v.compile h.label h.start = .ok c' ∧
      c'.registry.map (·.state) = c.registry.map (·.state) ∧
      (h.level c').under id = (g.level c).under new := by
  simp only [compile, Outcome.bind_eq_ok, pure, Except.pure, Except.ok.injEq] at ok
  obtain ⟨⟨registry, level⟩, compiled, rfl⟩ := ok
  have nothing : w.Entered v (registry.map (·.state)) new (v.states.size + 1) [] [] :=
    ⟨rfl, by simp, Nat.lt_succ_of_le (v.card_unregistered_le [])⟩
  obtain ⟨registry', level', compiled', entered, same⟩ :=
    compileBy_mirrors mirrors h.label
      (fun walked => walk_mirrors mirrors h.label nothing found_nil walked
        fun r listed => List.mem_map_of_mem listed) compiled
  obtain ⟨header, members⟩ := level
  obtain ⟨header', members'⟩ := level'
  rw [Level.under_node, Level.under_node] at same
  refine ⟨⟨members', registry'⟩, ?_, ?_, ?_⟩
  · rw [compile, compileLevel, start, compiled']
    rfl
  · have states := congrArg (List.map Member.state) entered.same
    rw [List.map_map, List.map_map] at states
    exact states
  · rw [Graph.level, Graph.level, Level.under_node, Level.under_node, Graph.header, Graph.header,
      start, timeout]
    exact congrArg _ (Nested.node.inj same).2

end Workspace
end Workflow
