import Workflow.Proofs.Linking

/-!
Sequencing. To continue or to end a chain is to give its open ends a way out, one after the other;
that all of them are checked before makes no difference to what succeeds. Ways out can be given in
either order: of different states neither bears on the other, and a state that has got one does not
take another. So it is the same whether a sequence of chains is linked from its start or from its
end.
-/

namespace Workflow

/-- What can be continued: a state by itself or a chain. -/
inductive Segment where
  | state (s : StateId)
  | chain (c : Chain)

namespace Segment

/-- The chain that starts with a segment. -/
def started (w : Workspace) : Segment → Chain
  | state s => w.chain s
  | chain c => c

/-- A segment as what something else is continued with. -/
def destination : Segment → Destination
  | state s => .state s
  | chain c => .chain c

def next (a : Segment) (destination : Destination) : Build Chain := do
  (a.started (← get)).next destination

def finish (a : Segment) : Build Chain := do
  (a.started (← get)).finish

end Segment

namespace Workspace

variable {w v : Workspace} {s t : StateId} {x y : State}

theorem setState_of_not_hasState (unknown : ¬ w.HasState s) : w.setState s x = w := by
  rw [setState, Array.setIfInBounds_eq_of_size_le (Nat.le_of_not_lt unknown)]

theorem setState_comm (other : s ≠ t) :
    (w.setState s x).setState t y = (w.setState t y).setState s x := by
  have apart : s.index ≠ t.index := fun same => other (congrArg StateId.mk same)
  rw [setState, setState, setState, setState]
  congr 1
  exact Array.setIfInBounds_comm x y apart

theorem state_setState_self (known : w.HasState s) : (w.setState s x).state s = x := by
  rw [state_setState, if_pos ⟨rfl, known⟩]

theorem state_setState_of_ne (other : s ≠ t) : (w.setState s x).state t = w.state t := by
  rw [state_setState, if_neg fun same => other same.1]

/-- Whether all states are of the same kinds. -/
def SameKinds (w v : Workspace) : Prop := ∀ s, (v.state s).kind = (w.state s).kind

theorem SameKinds.openEnds_eq (same : w.SameKinds v) (s : StateId) :
    v.openEnds s = w.openEnds s := by
  rw [openEnds, openEnds, State.isTerminal, State.isTerminal, State.type?, State.type?, same s]

theorem SameKinds.resolve_eq (same : w.SameKinds v) (d : Destination) :
    v.resolve d = w.resolve d := by
  cases d with
  | state s => rw [resolve, resolve, same.openEnds_eq]
  | _ => rfl

theorem SameKinds.started_eq (same : w.SameKinds v) (a : Segment) : a.started v = a.started w := by
  cases a with
  | state s => rw [Segment.started, Segment.started, chain, chain, same.openEnds_eq]
  | chain c => rfl

theorem resolve_destination (w : Workspace) (a : Segment) :
    w.resolve a.destination = .ok (.state (a.started w).start, (a.started w).openEnds) := by
  cases a <;> rfl

end Workspace

namespace Build

variable {α : Type} {m m' m'' : Build Unit} {f g : StateId → Build Unit} {able able' : State → Prop}
  {exit exit' : Exit} {c made : Chain} {d : Destination} {w v : Workspace}

/-- Whether two computations, one after the other, succeed and lead to a workspace. -/
def Then (m m' : Build Unit) (w v : Workspace) : Prop := ∃ u, m w = .ok () u ∧ m' u = .ok () v

/-- Whether two computations succeed in either order, if they succeed at all, and lead to the
same. -/
def Commute (m m' : Build Unit) : Prop := ∀ w v, Then m m' w v ↔ Then m' m w v

theorem Commute.symm (comm : Commute m m') : Commute m' m := fun w v => (comm w v).symm

theorem Commute.pure (m : Build Unit) : Commute (pure ()) m := by
  intro w v
  constructor
  · rintro ⟨_, ⟨⟩, ok⟩
    exact ⟨v, ok, rfl⟩
  · rintro ⟨_, ok, ⟨⟩⟩
    exact ⟨w, rfl, ok⟩

theorem Commute.bind (first : Commute m m'') (last : Commute m' m'') :
    Commute (m >>= fun _ => m') m'' := by
  intro w v
  constructor
  · rintro ⟨u, ok, there⟩
    obtain ⟨⟨⟩, t, here, next⟩ := bind_eq_ok.mp ok
    obtain ⟨u, next, ended⟩ := (last t v).mp ⟨u, next, there⟩
    obtain ⟨t, begun, next⟩ := (first w u).mp ⟨t, here, next⟩
    exact ⟨t, begun, bind_eq_ok.mpr ⟨(), u, next, ended⟩⟩
  · rintro ⟨t, begun, ok⟩
    obtain ⟨⟨⟩, u, next, ended⟩ := bind_eq_ok.mp ok
    obtain ⟨t, here, next⟩ := (first w u).mpr ⟨t, begun, next⟩
    obtain ⟨u, next, there⟩ := (last t v).mpr ⟨u, next, ended⟩
    exact ⟨u, bind_eq_ok.mpr ⟨(), t, here, next⟩, there⟩

theorem Commute.forM_left {states : List StateId} (each : ∀ s ∈ states, Commute (f s) m) :
    Commute (states.forM f) m := by
  induction states with
  | nil => exact .pure m
  | cons s states ih =>
    apply Commute.bind (each s List.mem_cons_self)
    exact ih fun t member => each t (List.mem_cons_of_mem s member)

/-- Steps that commute one by one commute as a whole. -/
theorem Commute.forM (each : ∀ s t, Commute (f s) (g t)) (states others : List StateId) :
    Commute (states.forM f) (others.forM g) :=
  .forM_left fun s _ => .symm (.forM_left fun t _ => (each s t).symm)

/-- Whether a computation gives a state a way out exactly if the state is able to take it. -/
def GivesExit (f : StateId → Build Unit) (able : State → Prop) (exit : Exit) : Prop :=
  ∀ s w v, f s w = .ok () v ↔ able (w.state s) ∧ w.setState s { w.state s with exit } = v

theorem wire_givesExit (target : Target) : GivesExit (wire · target) State.Open (.next target) := by
  intro s w v
  constructor
  · intro ok
    simp only [wire, bind_eq_ok, get_eq_ok, lift_eq_ok] at ok
    obtain ⟨_, _, ⟨rfl, rfl⟩, ⟨⟩, _, ⟨unwired, rfl⟩, ok⟩ := ok
    cases ok
    exact ⟨Workspace.checkUnwired_eq_ok.mp unwired, rfl⟩
  · rintro ⟨free, rfl⟩
    exact wire_eq_ok free

theorem stop_givesExit : GivesExit stop State.Stoppable .stop := by
  intro s w v
  constructor
  · intro ok
    simp only [stop, bind_eq_ok, get_eq_ok, lift_eq_ok] at ok
    obtain ⟨_, _, ⟨rfl, rfl⟩, ⟨⟩, _, ⟨stoppable, rfl⟩, ok⟩ := ok
    cases ok
    exact ⟨Workspace.checkStoppable_eq_ok.mp stoppable, rfl⟩
  · rintro ⟨able, rfl⟩
    exact stop_eq_ok able

/-- Ways out that exclude each other are given in either order: a state that has got one does not
take the other. -/
theorem GivesExit.commute (gives : GivesExit f able exit) (gives' : GivesExit g able' exit')
    (excludes : ∀ s, able s → ¬ able' { s with exit })
    (excludes' : ∀ s, able' s → ¬ able { s with exit := exit' }) (s t : StateId) :
    Commute (f s) (g t) := by
  have onward {f g : StateId → Build Unit} {able able' : State → Prop} {exit exit' : Exit}
      (gives : GivesExit f able exit) (gives' : GivesExit g able' exit')
      (excludes : ∀ s, able s → ¬ able' { s with exit }) {s t : StateId} {w v : Workspace}
      (ok : Then (f s) (g t) w v) : Then (g t) (f s) w v := by
    obtain ⟨u, first, last⟩ := ok
    obtain ⟨free, rfl⟩ := (gives s w u).mp first
    obtain ⟨free', rfl⟩ := (gives' t _ v).mp last
    by_cases same : s = t
    · subst same
      by_cases known : w.HasState s
      · rw [Workspace.state_setState_self known] at free'
        exact absurd free' (excludes _ free)
      · rw [Workspace.setState_of_not_hasState known] at free' ⊢
        refine ⟨_, (gives' s w _).mpr ⟨free', rfl⟩, (gives s _ _).mpr ?_⟩
        simp only [Workspace.setState_of_not_hasState known]
        exact ⟨free, trivial⟩
    · rw [Workspace.state_setState_of_ne same] at free' ⊢
      refine ⟨_, (gives' t w _).mpr ⟨free', rfl⟩, (gives s _ _).mpr ?_⟩
      rw [Workspace.state_setState_of_ne (Ne.symm same)]
      exact ⟨free, Workspace.setState_comm (Ne.symm same)⟩
  exact fun w v => ⟨onward gives gives' excludes, onward gives' gives excludes'⟩

theorem not_open_of_next (s : State) (target : Target) :
    ¬ State.Open { s with exit := .next target } := fun free => by cases free.unset

theorem wire_commute (target target' : Target) (s t : StateId) :
    Commute (wire s target) (wire t target') :=
  (wire_givesExit target).commute (wire_givesExit target') (fun s _ => not_open_of_next s target)
    (fun s _ => not_open_of_next s target') s t

theorem wire_stop_commute (target : Target) (s t : StateId) : Commute (wire s target) (stop t) := by
  refine (wire_givesExit target).commute stop_givesExit ?_ ?_ s t
  · exact fun s _ able => not_open_of_next s target able.1
  · exact fun s able free => able.2 (free.unstopped rfl)

/-- What all states are given they were able to take before any of them was given it. -/
theorem GivesExit.able_of_ok (gives : GivesExit f able exit) {states : List StateId}
    (ok : states.forM f w = .ok () v) : ∀ s ∈ states, able (w.state s) := by
  induction states generalizing w with
  | nil => exact fun s none => absurd none List.not_mem_nil
  | cons s states ih =>
    obtain ⟨⟨⟩, u, first, rest⟩ := bind_eq_ok.mp ok
    obtain ⟨free, rfl⟩ := (gives s w u).mp first
    refine List.forall_mem_cons.mpr ⟨free, fun t member => ?_⟩
    by_cases same : s = t
    · exact same ▸ free
    · rw [← Workspace.state_setState_of_ne (w := w) same]
      exact ih rest t member

/-- States that are able to take it and come up once each are all given a way out. -/
theorem GivesExit.forM_ok (gives : GivesExit f able exit) {states : List StateId}
    (distinct : states.Nodup) (each : ∀ s ∈ states, able (w.state s)) :
    ∃ v, states.forM f w = .ok () v := by
  induction states generalizing w with
  | nil => exact ⟨w, rfl⟩
  | cons s states ih =>
    obtain ⟨new, distinct⟩ := List.nodup_cons.mp distinct
    obtain ⟨here, later⟩ := List.forall_mem_cons.mp each
    have first := (gives s w _).mpr ⟨here, rfl⟩
    obtain ⟨v, rest⟩ : ∃ v, states.forM f (w.setState s { w.state s with exit }) = .ok () v := by
      apply ih distinct
      intro t member
      rw [Workspace.state_setState_of_ne (ne_of_mem_of_not_mem member new).symm]
      exact later t member
    exact ⟨v, bind_eq_ok.mpr ⟨(), _, first, rest⟩⟩

theorem GivesExit.sameKinds (gives : GivesExit f able exit) {states : List StateId}
    (ok : states.forM f w = .ok () v) : w.SameKinds v := by
  induction states generalizing w with
  | nil =>
    cases ok
    exact fun s => rfl
  | cons s states ih =>
    obtain ⟨⟨⟩, u, first, rest⟩ := bind_eq_ok.mp ok
    obtain ⟨-, rfl⟩ := (gives s w u).mp first
    intro t
    rw [ih rest t, Workspace.state_setState]
    split
    · rename_i here
      rw [here.1]
    · rfl

theorem checkContinuable_eq_ok_iff {attempt : Attempt} {done : Unit} :
    c.checkContinuable attempt w = .ok done v ↔ c.openEnds ≠ [] ∧ w = v := by
  constructor
  · intro ok
    by_cases none : c.openEnds = []
    · obtain ⟨fault, refused⟩ : Refuses (c.checkContinuable attempt) w :=
        refuses_checkContinuable none
      cases refused.symm.trans ok
    · cases (checkContinuable_eq_ok none).symm.trans ok
      exact ⟨none, rfl⟩
  · rintro ⟨some, rfl⟩
    exact checkContinuable_eq_ok some

/-- A chain is continued exactly if its open ends can be wired one after the other. -/
theorem next_eq_ok : c.next d w = .ok made v ↔ c.openEnds ≠ [] ∧
    ∃ target openEnds, w.resolve d = .ok (target, openEnds) ∧ ⟨c.start, openEnds⟩ = made ∧
      c.openEnds.forM (wire · target) w = .ok () v := by
  simp only [Chain.next, bind_eq_ok, checkContinuable_eq_ok_iff, get_eq_ok, lift_eq_ok, forM_lift,
    pure_eq_ok]
  constructor
  · rintro ⟨⟨⟩, _, ⟨some, rfl⟩, _, _, ⟨rfl, rfl⟩, ⟨target, openEnds⟩, _, ⟨resolved, rfl⟩, ⟨⟩, _,
      ⟨-, rfl⟩, ⟨⟩, _, wired, rfl, rfl⟩
    exact ⟨some, target, openEnds, resolved, rfl, wired⟩
  · rintro ⟨some, target, openEnds, resolved, rfl, wired⟩
    have checked : (c.openEnds.forM fun s =>
        w.checkUnwired s (.link (w.nameOf target))) = .ok () :=
      Outcome.forM_eq_ok.mpr fun s member =>
        Workspace.checkUnwired_eq_ok.mpr ((wire_givesExit target).able_of_ok wired s member)
    exact ⟨(), w, ⟨some, rfl⟩, w, w, ⟨rfl, rfl⟩, _, w, ⟨resolved, rfl⟩, (), w, ⟨checked, rfl⟩, (),
      v, wired, rfl, rfl⟩

/-- A chain is ended exactly if its open ends can be marked one after the other. -/
theorem finish_eq_ok : c.finish w = .ok made v ↔ c.openEnds ≠ [] ∧ ⟨c.start, []⟩ = made ∧
    c.openEnds.forM stop w = .ok () v := by
  simp only [Chain.finish, bind_eq_ok, checkContinuable_eq_ok_iff, get_eq_ok, lift_eq_ok, forM_lift,
    pure_eq_ok]
  constructor
  · rintro ⟨⟨⟩, _, ⟨some, rfl⟩, _, _, ⟨rfl, rfl⟩, ⟨⟩, _, ⟨-, rfl⟩, ⟨⟩, _, stopped, rfl, rfl⟩
    exact ⟨some, rfl, stopped⟩
  · rintro ⟨some, rfl, stopped⟩
    have checked : c.openEnds.forM w.checkStoppable = .ok () :=
      Outcome.forM_eq_ok.mpr fun s member =>
        Workspace.checkStoppable_eq_ok.mpr (stop_givesExit.able_of_ok stopped s member)
    exact ⟨(), w, ⟨some, rfl⟩, w, w, ⟨rfl, rfl⟩, (), w, ⟨checked, rfl⟩, (), v, stopped, rfl, rfl⟩

end Build

/-- How a chain goes on: it is continued with something or it is ended. -/
inductive Continuation where
  | next (d : Destination)
  | finish

namespace Continuation

open Build

variable {k : Continuation} {f : StateId → Build Unit} {openEnds : List StateId} {w v : Workspace}
  {c made : Chain} {a b : Segment}

def apply : Continuation → Chain → Build Chain
  | next d, c => c.next d
  | finish, c => c.finish

/-- What a continuation does to each open end, and the open ends that there are after it. -/
inductive Takes (w : Workspace) : Continuation → (StateId → Build Unit) → List StateId → Prop
  | next {d : Destination} {target : Target} {openEnds : List StateId} :
      w.resolve d = .ok (target, openEnds) → Takes w (.next d) (wire · target) openEnds
  | finish : Takes w .finish stop []

theorem Takes.givesExit (takes : k.Takes w f openEnds) : ∃ able exit, GivesExit f able exit := by
  cases takes with
  | next => exact ⟨_, _, wire_givesExit _⟩
  | finish => exact ⟨_, _, stop_givesExit⟩

theorem Takes.commute (takes : k.Takes w f openEnds) (target : Target) (s t : StateId) :
    Commute (wire s target) (f t) := by
  cases takes with
  | next => exact wire_commute target _ s t
  | finish => exact wire_stop_commute target s t

theorem takes_iff (same : w.SameKinds v) : k.Takes v f openEnds ↔ k.Takes w f openEnds := by
  constructor
  · rintro (⟨resolved⟩ | _)
    · exact .next (same.resolve_eq _ ▸ resolved)
    · exact .finish
  · rintro (⟨resolved⟩ | _)
    · exact .next (same.resolve_eq _ ▸ resolved)
    · exact .finish

theorem apply_eq_ok : k.apply c w = .ok made v ↔ c.openEnds ≠ [] ∧ ∃ f openEnds,
    k.Takes w f openEnds ∧ ⟨c.start, openEnds⟩ = made ∧ c.openEnds.forM f w = .ok () v := by
  cases k with
  | next d =>
    rw [apply, next_eq_ok]
    constructor
    · rintro ⟨some, target, openEnds, resolved, same, wired⟩
      exact ⟨some, _, openEnds, .next resolved, same, wired⟩
    · rintro ⟨some, _, openEnds, ⟨resolved⟩, same, wired⟩
      exact ⟨some, _, openEnds, resolved, same, wired⟩
  | finish =>
    rw [apply, finish_eq_ok]
    constructor
    · rintro ⟨some, same, stopped⟩
      exact ⟨some, _, [], .finish, same, stopped⟩
    · rintro ⟨some, _, openEnds, ⟨⟩, same, stopped⟩
      exact ⟨some, same, stopped⟩

/-- Two segments linked before the second one goes on. -/
theorem linked_first : (a.next b.destination >>= k.apply) w = .ok made v ↔
    (a.started w).openEnds ≠ [] ∧ (b.started w).openEnds ≠ [] ∧ ∃ f openEnds,
      k.Takes w f openEnds ∧ ⟨(a.started w).start, openEnds⟩ = made ∧
      Then ((a.started w).openEnds.forM (wire · (.state (b.started w).start)))
        ((b.started w).openEnds.forM f) w v := by
  have resolved := w.resolve_destination b
  simp only [bind_eq_ok, Segment.next, get_eq_ok, next_eq_ok, apply_eq_ok]
  constructor
  · rintro ⟨_, u, ⟨_, _, ⟨rfl, rfl⟩, some, target, _, given, rfl, wired⟩, some', f, openEnds, takes,
      same, rest⟩
    cases resolved.symm.trans given
    have kinds := (wire_givesExit _).sameKinds wired
    exact ⟨some, some', f, openEnds, (takes_iff kinds).mp takes, same, u, wired, rest⟩
  · rintro ⟨some, some', f, openEnds, takes, same, u, wired, rest⟩
    have kinds := (wire_givesExit _).sameKinds wired
    exact ⟨_, u, ⟨w, w, ⟨rfl, rfl⟩, some, _, _, resolved, rfl, wired⟩, some', f, openEnds,
      (takes_iff kinds).mpr takes, same, rest⟩

/-- Two segments linked after the second one has gone on. -/
theorem linked_last :
    ((do k.apply (b.started (← get))) >>= fun c => a.next (.chain c)) w = .ok made v ↔
    (a.started w).openEnds ≠ [] ∧ (b.started w).openEnds ≠ [] ∧ ∃ f openEnds,
      k.Takes w f openEnds ∧ ⟨(a.started w).start, openEnds⟩ = made ∧
      Then ((b.started w).openEnds.forM f)
        ((a.started w).openEnds.forM (wire · (.state (b.started w).start))) w v := by
  simp only [bind_eq_ok, Segment.next, get_eq_ok, next_eq_ok, apply_eq_ok]
  constructor
  · rintro ⟨_, u, ⟨_, _, ⟨rfl, rfl⟩, some', f, openEnds, takes, rfl, first⟩, _, _, ⟨rfl, rfl⟩, some,
      target, _, given, same, wired⟩
    obtain ⟨able, exit, gives⟩ := takes.givesExit
    rw [(gives.sameKinds first).started_eq] at some same wired
    cases given
    exact ⟨some, some', f, openEnds, takes, same, u, first, wired⟩
  · rintro ⟨some, some', f, openEnds, takes, same, u, first, wired⟩
    obtain ⟨able, exit, gives⟩ := takes.givesExit
    rw [← (gives.sameKinds first).started_eq] at some same wired
    exact ⟨_, u, ⟨w, w, ⟨rfl, rfl⟩, some', f, openEnds, takes, rfl, first⟩, u, u, ⟨rfl, rfl⟩, some,
      _, _, rfl, same, wired⟩

theorem linked_iff : (a.next b.destination >>= k.apply) w = .ok made v ↔
    ((do k.apply (b.started (← get))) >>= fun c => a.next (.chain c)) w = .ok made v := by
  rw [linked_first, linked_last]
  refine and_congr_right fun _ => and_congr_right fun _ => exists_congr fun f =>
    exists_congr fun openEnds => and_congr_right fun takes => and_congr_right fun _ => ?_
  exact Commute.forM (takes.commute _) _ _ w v

end Continuation

namespace Segment

/-- Linking is associative. Three segments in a row are linked alike, to the same chain and with all
ways out the same, whether the first two are linked first or the last two, and so are two segments
of which the last one is ended. -/
theorem next_assoc (w : Workspace) (a b : Segment) :
    (∀ d made v, (a.next b.destination >>= (·.next d)) w = .ok made v ↔
      (b.next d >>= fun c => a.next (.chain c)) w = .ok made v) ∧
    ∀ made v, (a.next b.destination >>= Chain.finish) w = .ok made v ↔
      (b.finish >>= fun c => a.next (.chain c)) w = .ok made v :=
  ⟨fun d _ _ => Continuation.linked_iff (k := .next d),
    fun _ _ => Continuation.linked_iff (k := .finish)⟩

-- A state, a choice and the state again.
example : ∃ v, ((Segment.state ⟨0⟩).next (.state ⟨1⟩) >>= (·.next (.state ⟨0⟩)))
    (.run {} [.edit (.scope "T" none), .edit (.state ⟨0⟩ "Ask" none {} (.pass {})),
      .edit (.state ⟨0⟩ "Route" none {} .choice)]) = .ok ⟨⟨0⟩, [⟨0⟩]⟩ v :=
  ⟨_, rfl⟩

end Segment
end Workflow
