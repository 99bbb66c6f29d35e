import Workflow.Proofs.Naming

/-!
Linking chains. The open ends of a chain are checked before any of them is wired, and each is
checked again when its turn comes. As no open end comes up twice in a chain, wiring one of them
leaves the others open, so that the second check is passed where the first one was. Linking a chain
links all of it or changes nothing.
-/

namespace Workflow

namespace State

variable {s new : State} {known : StateId → Prop} {t : StateId}

/-- The open ends that the branches of a choice had when they were attached. -/
def tails (s : State) : List StateId :=
  match s.kind with
  | .choice _ tails => tails
  | _ => []

theorem New.tails_eq {c : ScopeId} (fresh : s.New c) : s.tails = [] := by
  obtain ⟨description, kind⟩ := fresh.kind
  rw [tails, kind]
  cases description with
  | task resource fields => cases resource <;> rfl
  | _ => rfl

theorem tails_of_change (change : s.Change known new) (member : t ∈ new.tails) :
    t ∈ s.tails ∨ known t := by
  cases change with
  | wire | stop | retry | handle => exact .inl member
  | rule rule more kind made there brought =>
    rw [tails, kind]
    exact brought t member
  | tails more kind brought =>
    rw [tails, kind]
    exact brought t member
  | branches | iterator => cases member

/-- A state that can be marked as an end. -/
def Stoppable (s : State) : Prop := s.Open ∧ s.type? ≠ some .choice

/-- Whether a state goes on to a target: a choice by its default, another state by its next one. -/
def GoesOn (s : State) (target : Target) : Prop :=
  if s.type? = some .choice then s.default? = some target else s.next? = some target

end State

/-- What a chain can be continued with. -/
def Destination.Valid : Destination → Prop
  | .state _ | .chain _ => True
  | .name given => given ≠ ""
  | .other _ => False

namespace Workspace

variable {w v : Workspace} {s : StateId} {c : Chain} {d : Destination} {exit : Exit}

theorem resolve_of_valid (valid : d.Valid) :
    ∃ target openEnds, w.resolve d = .ok (target, openEnds) := by
  cases d with
  | state s => exact ⟨_, _, rfl⟩
  | chain c => exact ⟨_, _, rfl⟩
  | name given =>
    have given : given ≠ "" := valid
    exact ⟨_, _, by rw [resolve, if_neg (by simpa using given)]⟩
  | other value => cases valid

theorem resolve_of_not_valid (invalid : ¬ d.Valid) : ∃ fault, w.resolve d = .error fault := by
  cases d with
  | state | chain => simp [Destination.Valid] at invalid
  | name given =>
    have none : given = "" := by simpa [Destination.Valid] using invalid
    exact ⟨_, by rw [resolve, if_pos (by simpa using none)]⟩
  | other value => exact ⟨_, rfl⟩

/-- Exactly the open states pass the check that precedes a transition. -/
theorem checkUnwired_eq_ok {attempt : Attempt} :
    w.checkUnwired s attempt = .ok () ↔ (w.state s).Open := by
  refine ⟨open_of_checkUnwired, ?_⟩
  rintro ⟨unset, unstopped, lasting⟩
  have free : w.wired? (w.state s) = none := by
    rw [State.onward] at unset
    rw [State.isStopped, State.type?] at unstopped
    rw [State.isTerminal, State.type?] at lasting
    cases exit : (w.state s).exit with
    | next target => simp [exit] at unset
    | unset =>
      cases kind : (w.state s).kind <;>
        simp_all [wired?, State.type?, Kind.type?, StateType.isTerminal]
    | stop =>
      cases kind : (w.state s).kind <;> simp_all [wired?, Kind.type?]
  rw [checkUnwired, free]

theorem checkStoppable_eq_ok :
    w.checkStoppable s = .ok () ↔ (w.state s).Stoppable := by
  refine ⟨open_of_checkStoppable, ?_⟩
  rintro ⟨free, other⟩
  rw [checkStoppable]
  split
  · rename_i kind
    exact absurd (by rw [State.type?, kind, Kind.type?]) other
  · exact checkUnwired_eq_ok.mpr free

/-- Whether one workspace becomes another by giving some of its states a way out. -/
structure Sets (w v : Workspace) (states : List StateId) (exit : Exit) : Prop where
  set : ∀ s ∈ states, v.state s = { w.state s with exit }
  kept : ∀ s ∉ states, v.state s = w.state s
  size : v.states.size = w.states.size
  scopes : v.scopes = w.scopes
  graphs : v.graphs = w.graphs

theorem Sets.nil : w.Sets w [] exit :=
  ⟨fun _ member => absurd member List.not_mem_nil, fun _ _ => rfl, rfl, rfl, rfl⟩

theorem Sets.cons {states : List StateId} (known : w.HasState s) (new : s ∉ states)
    (sets : (w.setState s { w.state s with exit }).Sets v states exit) :
    w.Sets v (s :: states) exit := by
  have here : (w.setState s { w.state s with exit }).state s = { w.state s with exit } := by
    rw [state_setState, if_pos ⟨rfl, known⟩]
  have elsewhere {t : StateId} (other : t ≠ s) :
      (w.setState s { w.state s with exit }).state t = w.state t := by
    rw [state_setState, if_neg fun same => other same.1.symm]
  constructor
  case set =>
    intro t member
    rcases List.mem_cons.mp member with rfl | later
    · rw [sets.kept t new, here]
    · rw [sets.set t later, elsewhere (ne_of_mem_of_not_mem later new)]
  case kept =>
    intro t outside
    obtain ⟨other, outside⟩ := not_or.mp (mt List.mem_cons.mpr outside)
    rw [sets.kept t outside, elsewhere other]
  case size => rw [sets.size, setState, Array.size_setIfInBounds]
  case scopes => exact sets.scopes
  case graphs => exact sets.graphs

theorem Sets.goesOn {states : List StateId} {target : Target}
    (sets : w.Sets v states (.next target)) (member : s ∈ states) : (v.state s).GoesOn target := by
  rw [sets.set s member, State.GoesOn, State.default?, State.next?]
  split <;> rfl

theorem Sets.isStopped {states : List StateId} (sets : w.Sets v states .stop)
    (member : s ∈ states) : (v.state s).isStopped = true := by
  rw [sets.set s member]
  rfl

/-- What a chain needs to be continued with a destination. -/
structure Linkable (w : Workspace) (c : Chain) (d : Destination) : Prop where
  some : c.openEnds ≠ []
  able : ∀ s ∈ c.openEnds, (w.state s).Open
  valid : d.Valid

/-- What a chain needs to be ended. -/
structure Finishable (w : Workspace) (c : Chain) : Prop where
  some : c.openEnds ≠ []
  able : ∀ s ∈ c.openEnds, (w.state s).Stoppable

end Workspace

namespace Build

variable {α β : Type} {w : Workspace} {s : StateId} {c : Chain} {d : Destination}

/-- Whether a computation is refused before it has changed anything. -/
def Refuses (m : Build α) (w : Workspace) : Prop := ∃ fault, m w = .error fault w

theorem refuses_bind {first : Build α} {next : α → Build β} (refused : Refuses first w) :
    Refuses (first >>= next) w := by
  obtain ⟨fault, refused⟩ := refused
  exact ⟨fault, by simp [bind, EStateM.bind, refused]⟩

theorem refuses_bind_of_ok {first : Build α} {next : α → Build β} {a : α}
    (ok : first w = .ok a w) (rest : Refuses (next a) w) : Refuses (first >>= next) w := by
  obtain ⟨fault, refused⟩ := rest
  exact ⟨fault, by simp [bind, EStateM.bind, ok, refused]⟩

theorem refuses_lift {outcome : Except Fault α} (refused : ∀ a, outcome ≠ .ok a) :
    Refuses (lift outcome) w := by
  cases outcome with
  | error fault => exact ⟨fault, rfl⟩
  | ok a => exact absurd rfl (refused a)

theorem forM_lift {check : α → Except Fault Unit} (items : List α) :
    (items.forM fun a => lift (check a)) w = lift (items.forM check) w := by
  induction items with
  | nil => rfl
  | cons a items ih =>
    rw [List.forM, List.forM]
    cases here : check a with
    | error fault => rfl
    | ok => exact ih

theorem wire_eq_ok {target : Target} (free : (w.state s).Open) :
    wire s target w = .ok () (w.setState s { w.state s with exit := .next target }) := by
  simp only [wire, bind_eq_ok, get_eq_ok, lift_eq_ok]
  exact ⟨w, w, ⟨rfl, rfl⟩, (), w, ⟨Workspace.checkUnwired_eq_ok.mpr free, rfl⟩, rfl⟩

theorem stop_eq_ok (able : (w.state s).Stoppable) :
    stop s w = .ok () (w.setState s { w.state s with exit := .stop }) := by
  simp only [stop, bind_eq_ok, get_eq_ok, lift_eq_ok]
  exact ⟨w, w, ⟨rfl, rfl⟩, (), w, ⟨Workspace.checkStoppable_eq_ok.mpr able, rfl⟩, rfl⟩

/-- States that come up once each are given a way out one after the other: what is done to one
leaves the others as they were, so that each can be dealt with when its turn comes. -/
theorem forM_sets {f : StateId → Build Unit} {able : State → Prop} {exit : Exit}
    (step : ∀ (s : StateId) (v : Workspace), able (v.state s) →
      f s v = .ok () (v.setState s { v.state s with exit }))
    {states : List StateId} (distinct : states.Nodup) (known : ∀ s ∈ states, w.HasState s)
    (each : ∀ s ∈ states, able (w.state s)) :
    ∃ v, states.forM f w = .ok () v ∧ w.Sets v states exit := by
  induction states generalizing w with
  | nil => exact ⟨w, rfl, .nil⟩
  | cons s states ih =>
    obtain ⟨new, distinct⟩ := List.nodup_cons.mp distinct
    have first := step s w (each s List.mem_cons_self)
    have later : ∀ t ∈ states, able ((w.setState s { w.state s with exit }).state t) := by
      intro t member
      rw [Workspace.state_setState, if_neg]
      · exact each t (List.mem_cons_of_mem _ member)
      · rintro ⟨rfl, -⟩
        exact new member
    have there : ∀ t ∈ states, (w.setState s { w.state s with exit }).HasState t := fun t member =>
      Workspace.hasState_setState.mpr (known t (List.mem_cons_of_mem _ member))
    obtain ⟨v, rest, sets⟩ := ih distinct there later
    exact ⟨v, bind_eq_ok.mpr ⟨(), _, first, rest⟩, sets.cons (known s List.mem_cons_self) new⟩

theorem checkContinuable_eq_ok {attempt : Attempt} (some : c.openEnds ≠ []) :
    c.checkContinuable attempt w = .ok () w := by
  rw [Chain.checkContinuable, if_neg (by simpa using some)]
  rfl

theorem refuses_forM_lift {check : α → Except Fault Unit} {items : List α}
    (refused : ¬ ∀ a ∈ items, check a = .ok ()) :
    Refuses (items.forM fun a => lift (check a)) w := by
  rw [Refuses, forM_lift]
  exact refuses_lift fun _ ok => refused (Outcome.forM_eq_ok.mp ok)

theorem refuses_checkContinuable {attempt : Attempt} (none : c.openEnds = []) :
    Refuses (c.checkContinuable attempt) w := by
  rw [Chain.checkContinuable, if_pos (by simp [none])]
  exact ⟨_, rfl⟩

theorem made_of_next {made : Chain} {v : Workspace} (ok : c.next d w = .ok made v) :
    ∃ target, w.resolve d = .ok (target, made.openEnds) ∧ made.start = c.start := by
  simp only [Chain.next, bind_eq_ok, get_eq_ok, lift_eq_ok, pure_eq_ok] at ok
  obtain ⟨⟨⟩, u, continuable, _, _, ⟨rfl, rfl⟩, ⟨target, openEnds⟩, _, ⟨resolved, rfl⟩, rest⟩ := ok
  obtain ⟨⟨⟩, _, -, ⟨⟩, _, -, rfl, -⟩ := rest
  have same : u = w := by
    rw [← after_checkContinuable (w := w) c .continuation, after, continuable]
  exact ⟨target, same ▸ resolved, rfl⟩

theorem made_of_finish {made : Chain} {v : Workspace} (ok : c.finish w = .ok made v) :
    made = ⟨c.start, []⟩ := by
  simp only [Chain.finish, bind_eq_ok, get_eq_ok, pure_eq_ok] at ok
  obtain ⟨⟨⟩, _, -, _, _, -, ⟨⟩, _, -, ⟨⟩, _, -, made, -⟩ := ok
  exact made.symm

theorem after_of_ok {m : Build α} {a : α} {v : Workspace} (ok : m w = .ok a v) :
    m.after w = v := by
  rw [after, ok]

theorem next_linked (distinct : c.openEnds.Nodup) (known : ∀ s ∈ c.openEnds, w.HasState s)
    (linkable : w.Linkable c d) :
    ∃ target openEnds v, w.resolve d = .ok (target, openEnds) ∧
      c.next d w = .ok ⟨c.start, openEnds⟩ v ∧ w.Sets v c.openEnds (.next target) := by
  obtain ⟨target, openEnds, resolved⟩ := Workspace.resolve_of_valid (w := w) linkable.valid
  have checked : (c.openEnds.forM fun s =>
      w.checkUnwired s (.link (w.nameOf target))) = .ok () :=
    Outcome.forM_eq_ok.mpr fun s member => Workspace.checkUnwired_eq_ok.mpr (linkable.able s member)
  obtain ⟨v, wired, sets⟩ :=
    forM_sets (f := (wire · target)) (fun s v free => wire_eq_ok free) distinct known linkable.able
  refine ⟨target, openEnds, v, resolved, ?_, sets⟩
  simp only [Chain.next, bind_eq_ok, get_eq_ok, lift_eq_ok, forM_lift, pure_eq_ok]
  exact ⟨(), w, checkContinuable_eq_ok linkable.some, w, w, ⟨rfl, rfl⟩, _, w, ⟨resolved, rfl⟩,
    (), w, ⟨checked, rfl⟩, (), v, wired, rfl, rfl⟩

theorem refuses_next (unable : ¬ w.Linkable c d) : Refuses (c.next d) w := by
  rw [Chain.next]
  by_cases none : c.openEnds = []
  · exact refuses_bind (refuses_checkContinuable none)
  refine refuses_bind_of_ok (checkContinuable_eq_ok none) (refuses_bind_of_ok rfl ?_)
  by_cases valid : d.Valid
  · obtain ⟨target, openEnds, resolved⟩ := Workspace.resolve_of_valid (w := w) valid
    refine refuses_bind_of_ok (lift_eq_ok.mpr ⟨resolved, rfl⟩) (refuses_bind ?_)
    refine refuses_forM_lift fun checked => unable ⟨none, ?_, valid⟩
    exact fun s member => Workspace.checkUnwired_eq_ok.mp (checked s member)
  · refine refuses_bind (refuses_lift fun resolved ok => ?_)
    obtain ⟨fault, refused⟩ := Workspace.resolve_of_not_valid (w := w) valid
    cases refused.symm.trans ok

theorem finish_linked (distinct : c.openEnds.Nodup) (known : ∀ s ∈ c.openEnds, w.HasState s)
    (finishable : w.Finishable c) :
    ∃ v, c.finish w = .ok ⟨c.start, []⟩ v ∧ w.Sets v c.openEnds .stop := by
  have checked : c.openEnds.forM w.checkStoppable = .ok () :=
    Outcome.forM_eq_ok.mpr fun s member =>
      Workspace.checkStoppable_eq_ok.mpr (finishable.able s member)
  obtain ⟨v, stopped, sets⟩ :=
    forM_sets (f := stop) (fun s v able => stop_eq_ok able) distinct known finishable.able
  refine ⟨v, ?_, sets⟩
  simp only [Chain.finish, bind_eq_ok, get_eq_ok, forM_lift, lift_eq_ok, pure_eq_ok]
  exact ⟨(), w, checkContinuable_eq_ok finishable.some, w, w, ⟨rfl, rfl⟩, (), w, ⟨checked, rfl⟩,
    (), v, stopped, ⟨⟩, rfl⟩

theorem refuses_finish (unable : ¬ w.Finishable c) : Refuses c.finish w := by
  rw [Chain.finish]
  by_cases none : c.openEnds = []
  · exact refuses_bind (refuses_checkContinuable none)
  refine refuses_bind_of_ok (checkContinuable_eq_ok none) (refuses_bind_of_ok rfl ?_)
  refine refuses_bind (refuses_forM_lift fun checked => unable ⟨none, ?_⟩)
  exact fun s member => Workspace.checkStoppable_eq_ok.mp (checked s member)

end Build

namespace Workspace

variable {w : Workspace} {s : StateId} {c : Chain}

theorem frontierFrom_distinct (w : Workspace) (fuel : Nat) (seen work : List StateId) :
    (w.frontierFrom fuel seen work).Nodup ∧ ∀ s ∈ w.frontierFrom fuel seen work, s ∉ seen := by
  have forget {s : StateId} {seen found : List StateId} (unseen : ∀ t ∈ found, t ∉ s :: seen) :
      ∀ t ∈ found, t ∉ seen := fun t member old => unseen t member (List.mem_cons_of_mem s old)
  fun_induction w.frontierFrom fuel seen work with
  | case1 | case2 => exact ⟨List.nodup_nil, fun s member => absurd member List.not_mem_nil⟩
  | case3 fuel seen s work old ih => exact ih
  | case5 fuel seen s work new running unset ih =>
    -- The state is found here, and the rest of the search has seen it.
    have apart : s ∉ w.frontierFrom fuel (s :: seen) work := fun member =>
      ih.2 s member List.mem_cons_self
    exact ⟨List.nodup_cons.mpr ⟨apart, ih.1⟩, List.forall_mem_cons.mpr ⟨new, forget ih.2⟩⟩
  | case4 | case6 | case7 | case8 =>
    rename_i ih
    exact ⟨ih.1, forget ih.2⟩

/-- What is found by following known states is known. -/
theorem hasState_frontierFrom (closed : w.Closed) {fuel : Nat} {seen work : List StateId}
    (known : ∀ s ∈ work, w.HasState s) : ∀ s ∈ w.frontierFrom fuel seen work, w.HasState s := by
  fun_induction w.frontierFrom fuel seen work with
  | case1 | case2 => exact fun s member => absurd member List.not_mem_nil
  | case5 fuel seen s work new running unset ih =>
    obtain ⟨here, rest⟩ := List.forall_mem_cons.mp known
    exact List.forall_mem_cons.mpr ⟨here, ih rest⟩
  | case6 fuel seen s work new running t next ih =>
    obtain ⟨here, rest⟩ := List.forall_mem_cons.mp known
    -- The search goes on to a state that was not pending, which is known as it is referred to.
    have leads : t ∈ (w.state s).references :=
      State.mem_references.mpr (.inl (by rw [State.onward, next]))
    exact ih (List.forall_mem_cons.mpr ⟨closed s t leads, rest⟩)
  | case3 | case4 | case7 | case8 =>
    rename_i ih
    exact ih (List.forall_mem_cons.mp known).2

theorem afterwards_ok (ok : w.afterwards s = .ok c) :
    c.start = s ∧ c.openEnds = w.frontier s (w.state s).tails ++
      if (w.state s).onward.isNone then [s] else [] := by
  rw [afterwards] at ok
  rw [State.tails]
  cases kind : (w.state s).kind with
  | choice rules tails =>
    rw [kind] at ok
    obtain rfl := Except.ok.inj ok
    exact ⟨rfl, rfl⟩
  | _ =>
    rw [kind] at ok
    cases ok

/-- A choice is not among the open ends of its branches, which are followed without going through
it. -/
theorem afterwards_distinct (ok : w.afterwards s = .ok c) : c.openEnds.Nodup := by
  obtain ⟨-, openEnds⟩ := afterwards_ok ok
  obtain ⟨distinct, apart⟩ := w.frontierFrom_distinct _ [s] (w.state s).tails
  rw [openEnds]
  refine distinct.append (by split <;> simp) ?_
  intro t found last
  split at last
  · exact apart t found last
  · cases last

theorem hasChain_afterwards (closed : w.Closed) (tails : ∀ t ∈ (w.state s).tails, w.HasState t)
    (known : w.HasState s) (ok : w.afterwards s = .ok c) : w.HasChain c := by
  obtain ⟨start, openEnds⟩ := afterwards_ok ok
  refine ⟨start ▸ known, ?_⟩
  intro t member
  rw [openEnds] at member
  rcases List.mem_append.mp member with found | last
  · exact hasState_frontierFrom closed tails t found
  · split at last
    · exact List.mem_singleton.mp last ▸ known
    · cases last

theorem chain_distinct (w : Workspace) (s : StateId) : (w.chain s).openEnds.Nodup := by
  rw [chain, openEnds]
  split
  · exact List.nodup_nil
  · exact List.nodup_singleton s

theorem hasChain_chain (known : w.HasState s) : w.HasChain (w.chain s) :=
  ⟨known, fun t member => openEnds_subset w s t member ▸ known⟩

theorem distinct_of_resolve {d : Destination} {target : Target} {openEnds : List StateId}
    (distinct : ∀ c, d = .chain c → c.openEnds.Nodup)
    (resolved : w.resolve d = .ok (target, openEnds)) : openEnds.Nodup := by
  cases d with
  | state s =>
    cases resolved
    exact w.chain_distinct s
  | chain c =>
    cases resolved
    exact distinct c rfl
  | name given =>
    rw [resolve] at resolved
    split at resolved
    · cases resolved
    · cases resolved
      exact List.nodup_nil
  | other value => cases resolved

end Workspace

theorem Runs.snoc {u w : Workspace} {ops : List Operation} {op : Operation} (runs : Runs u ops w)
    (within : op.Within w) : Runs u (ops ++ [op]) (op.after w) := by
  induction runs with
  | nil w => exact .cons within (.nil _)
  | cons first _ ih => exact .cons first (ih within)

/-- A history and the chains that are made in it: of given open ends without repetition, of single
states, of the branches of a choice and by linking chains that were made before. Linking a state, or
one chain in sequence with another, is linking the chain that is started from it. -/
inductive Chained : Workspace → List Chain → Prop
  | nil : Chained {} []
  | operate {w : Workspace} {chains : List Chain} {op : Operation} :
      Chained w chains → op.Within w → Chained (op.after w) chains
  | given {w : Workspace} {chains : List Chain} {c : Chain} :
      Chained w chains → w.HasChain c → c.openEnds.Nodup → Chained w (c :: chains)
  | start {w : Workspace} {chains : List Chain} {s : StateId} :
      Chained w chains → w.HasState s → Chained w (w.chain s :: chains)
  | afterwards {w : Workspace} {chains : List Chain} {s : StateId} {c : Chain} :
      Chained w chains → w.HasState s → w.afterwards s = .ok c → Chained w (c :: chains)
  | next {w v : Workspace} {chains : List Chain} {c made : Chain} {d : Destination} :
      Chained w chains → c ∈ chains → w.HasDestination d →
      (∀ other, d = .chain other → other ∈ chains) → c.next d w = .ok made v →
      Chained v (made :: chains)
  | finish {w v : Workspace} {chains : List Chain} {c made : Chain} :
      Chained w chains → c ∈ chains → c.finish w = .ok made v → Chained v (made :: chains)

namespace Chained

variable {w : Workspace} {chains : List Chain} {c : Chain}

/-- Whether a workspace is that of a history and chains are of states that it has, with no open end
twice. -/
structure Intact (w : Workspace) (chains : List Chain) : Prop where
  built : ∃ ops, Runs {} ops w
  known : ∀ c ∈ chains, w.HasChain c
  distinct : ∀ c ∈ chains, c.openEnds.Nodup

theorem Intact.cons (intact : Intact w chains) (known : w.HasChain c)
    (distinct : c.openEnds.Nodup) : Intact w (c :: chains) where
  built := intact.built
  known := List.forall_mem_cons.mpr ⟨known, intact.known⟩
  distinct := List.forall_mem_cons.mpr ⟨distinct, intact.distinct⟩

theorem Intact.after {op : Operation} (intact : Intact w chains) (within : op.Within w) :
    Intact (op.after w) chains where
  built := by
    obtain ⟨ops, runs⟩ := intact.built
    exact ⟨_, runs.snoc within⟩
  known c member := Workspace.hasChain_after within (intact.known c member)
  distinct := intact.distinct

theorem Intact.afterwards {s : StateId} (intact : Intact w chains) (known : w.HasState s)
    (ok : w.afterwards s = .ok c) : Intact w (c :: chains) := by
  obtain ⟨ops, runs⟩ := intact.built
  have tails := runs.known_refs State.New.tails_eq State.tails_of_change (fun _ _ => rfl) s
  exact intact.cons (Workspace.hasChain_afterwards runs.closed tails known ok)
    (Workspace.afterwards_distinct ok)

theorem Intact.next {made : Chain} {d : Destination} {v : Workspace} (intact : Intact w chains)
    (member : c ∈ chains) (known : w.HasDestination d)
    (others : ∀ other, d = .chain other → other ∈ chains) (ok : c.next d w = .ok made v) :
    Intact v (made :: chains) := by
  have within : (Operation.edit (.next c d)).Within w := ⟨intact.known c member, known⟩
  obtain rfl : (Operation.edit (.next c d)).after w = v := Build.after_of_ok ok
  obtain ⟨target, resolved, start⟩ := Build.made_of_next ok
  refine (intact.after within).cons ⟨?_, ?_⟩ ?_
  · exact start ▸ Workspace.hasState_after within (intact.known c member).1
  · intro s among
    exact Workspace.hasState_after within
      (Workspace.known_openEnds_of_resolve known resolved s among)
  · apply Workspace.distinct_of_resolve _ resolved
    exact fun other same => intact.distinct other (others other same)

theorem Intact.finish {made : Chain} {v : Workspace} (intact : Intact w chains)
    (member : c ∈ chains) (ok : c.finish w = .ok made v) : Intact v (made :: chains) := by
  have within : (Operation.edit (.finish c)).Within w := intact.known c member
  obtain rfl : (Operation.edit (.finish c)).after w = v := Build.after_of_ok ok
  obtain rfl := Build.made_of_finish ok
  have start := Workspace.hasState_after within (intact.known c member).1
  exact (intact.after within).cons ⟨start, fun s none => absurd none List.not_mem_nil⟩
    List.nodup_nil

/-- However chains are made, they are intact. -/
theorem intact (chained : Chained w chains) : Intact w chains := by
  induction chained with
  | nil => exact ⟨⟨[], .nil _⟩, fun c none => absurd none List.not_mem_nil, by simp⟩
  | operate _ within ih => exact ih.after within
  | given _ known distinct ih => exact ih.cons known distinct
  | @start w _ s _ known ih => exact ih.cons (Workspace.hasChain_chain known) (w.chain_distinct s)
  | afterwards _ known ok ih => exact ih.afterwards known ok
  | next _ member known others ok ih => exact ih.next member known others ok
  | finish _ member ok ih => exact ih.finish member ok

/-- A chain has its open ends once each. Continuing it with anything whatever gives all of them, and
no other state, the start of the destination to go on to, or is refused and changes nothing; and
ending it likewise. Which of the two happens depends on the chain as it is found alone. -/
theorem linked_whole (chained : Chained w chains) (member : c ∈ chains) :
    c.openEnds.Nodup ∧
    (∀ d, (w.Linkable c d ∧ ∃ target openEnds v, w.resolve d = .ok (target, openEnds) ∧
        c.next d w = .ok ⟨c.start, openEnds⟩ v ∧ w.Sets v c.openEnds (.next target) ∧
        ∀ s ∈ c.openEnds, (v.state s).GoesOn target) ∨
      (¬ w.Linkable c d ∧ ∃ fault, c.next d w = .error fault w)) ∧
    ((w.Finishable c ∧ ∃ v, c.finish w = .ok ⟨c.start, []⟩ v ∧ w.Sets v c.openEnds .stop ∧
        ∀ s ∈ c.openEnds, (v.state s).isStopped = true) ∨
      (¬ w.Finishable c ∧ ∃ fault, c.finish w = .error fault w)) := by
  have known := chained.intact.known c member
  have distinct := chained.intact.distinct c member
  refine ⟨distinct, ?_, ?_⟩
  · intro d
    by_cases linkable : w.Linkable c d
    · obtain ⟨target, openEnds, v, resolved, ok, sets⟩ :=
        Build.next_linked distinct known.2 linkable
      exact .inl ⟨linkable, target, openEnds, v, resolved, ok, sets, fun s => sets.goesOn⟩
    · exact .inr ⟨linkable, Build.refuses_next linkable⟩
  · by_cases finishable : w.Finishable c
    · obtain ⟨v, ok, sets⟩ := Build.finish_linked distinct known.2 finishable
      exact .inl ⟨finishable, v, ok, sets, fun s => sets.isStopped⟩
    · exact .inr ⟨finishable, Build.refuses_finish finishable⟩

theorem of_runs {u : Workspace} {ops : List Operation} (runs : Runs u ops w)
    (chained : Chained u chains) : Chained w chains := by
  induction runs with
  | nil => exact chained
  | cons within _ ih => exact ih (.operate chained within)

/-- A choice with one branch and no default, and a state in which to end. -/
def fork : List Operation :=
  [.edit (.scope "T" none), .edit (.state ⟨0⟩ "Fork" none {} .choice),
    .edit (.state ⟨0⟩ "Left" none {} (.pass {})), .edit (.state ⟨0⟩ "Join" none {} .succeed),
    .edit (.rule ⟨0⟩ (.ok ⟨.compare "$.left" "BooleanEquals" (.bool true), .comparison
      (rfl : Condition.comparison (.string "$.left") "BooleanEquals" (.bool true) = .ok _)⟩)
      (.state ⟨1⟩))]

/-- What comes after a fork can be joined, branch and default alike, but not be ended. -/
theorem fork_linked_whole :
    ∃ w c v, Chained w [c] ∧ c.openEnds = [⟨1⟩, ⟨0⟩] ∧ c.openEnds.Nodup ∧
      c.next (.state ⟨2⟩) w = .ok ⟨⟨0⟩, []⟩ v ∧ w.Sets v c.openEnds (.next (.state ⟨2⟩)) ∧
      ∃ fault, c.finish w = .error fault w := by
  have after : Workspace.afterwards (Workspace.run {} fork) ⟨0⟩ = .ok ⟨⟨0⟩, [⟨1⟩, ⟨0⟩]⟩ := rfl
  have chained : Chained (Workspace.run {} fork) [⟨⟨0⟩, [⟨1⟩, ⟨0⟩]⟩] :=
    .afterwards (.of_runs (.of_allows (by decide)) .nil) (by decide) after
  obtain ⟨distinct, next, finish⟩ := linked_whole chained List.mem_cons_self
  have refused : ∃ fault, Chain.finish ⟨⟨0⟩, [⟨1⟩, ⟨0⟩]⟩ (Workspace.run {} fork) =
      .error fault (Workspace.run {} fork) := by
    rcases finish with ⟨finishable, -⟩ | ⟨-, refused⟩
    · exact absurd rfl (finishable.able ⟨0⟩ (by decide)).2
    · exact refused
  rcases next (.state ⟨2⟩) with ⟨-, target, openEnds, v, resolved, ok, sets, -⟩ | ⟨unable, -⟩
  · cases resolved
    exact ⟨_, _, v, chained, rfl, distinct, ok, sets, refused⟩
  · have left : (Workspace.state (.run {} fork) ⟨1⟩).Open := ⟨rfl, nofun, rfl⟩
    have split : (Workspace.state (.run {} fork) ⟨0⟩).Open := ⟨rfl, fun _ => rfl, rfl⟩
    have able : ∀ s ∈ [⟨1⟩, ⟨0⟩], (Workspace.state (.run {} fork) s).Open :=
      List.forall_mem_cons.mpr ⟨left, List.forall_mem_singleton.mpr split⟩
    exact absurd ⟨List.cons_ne_nil _ _, able, trivial⟩ unable

end Chained
end Workflow
