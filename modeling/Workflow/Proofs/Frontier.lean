import Mathlib.Data.Finset.Card
import Workflow.Proofs.Sequencing

/-!
The frontier of a choice. A path leads from state to state by the ways out that have been set, and
ends at a state that is still open, unless it stops, loses itself in a name or in a circle, or meets
a state that it shuns. The search for the open ends of all branches sees each state once, so that a
branch which runs into an earlier one is given up. Nothing is lost by that: from there both paths
are the same and end at the same state, which is found already.
-/

namespace Workflow
namespace Workspace

variable {w : Workspace} {shunned shunned' states : List StateId} {s t e e' : StateId}

/-- Whether a path goes on from a state by its way out. -/
def Steps (w : Workspace) (s t : StateId) : Prop := (w.state s).onward = some (.state t)

/-- Whether the path from a state, which shuns some states, ends at a state that is still open. -/
inductive EndsAt (w : Workspace) (shunned : List StateId) : StateId → StateId → Prop
  | here {s : StateId} : s ∉ shunned → (w.state s).isTerminal = false →
      (w.state s).isStopped = false → (w.state s).onward = none → EndsAt w shunned s s
  | step {s t e : StateId} : s ∉ shunned → (w.state s).isTerminal = false → w.Steps s t →
      EndsAt w shunned t e → EndsAt w shunned s e

/-- The states at which the paths of some states end, in their order. -/
inductive PathsEnd (w : Workspace) (shunned : List StateId) : List StateId → List StateId → Prop
  | nil : PathsEnd w shunned [] []
  | found {s e : StateId} {states ends : List StateId} : w.EndsAt shunned s e →
      PathsEnd w shunned states ends → PathsEnd w shunned (s :: states) (e :: ends)
  | lost {s : StateId} {states ends : List StateId} : (∀ e, ¬ w.EndsAt shunned s e) →
      PathsEnd w shunned states ends → PathsEnd w shunned (s :: states) ends

theorem Steps.unique (step : w.Steps s t) {u : StateId} (step' : w.Steps s u) : t = u := by
  cases step.symm.trans step'
  rfl

theorem EndsAt.not_mem (ends : w.EndsAt shunned s e) : s ∉ shunned := by
  cases ends with
  | here new | step new => exact new

theorem EndsAt.end_not_mem (ends : w.EndsAt shunned s e) : e ∉ shunned := by
  induction ends with
  | here new => exact new
  | step _ _ _ _ ih => exact ih

theorem EndsAt.open (ends : w.EndsAt shunned s e) : (w.state e).Open := by
  induction ends with
  | here _ lasting running unset =>
    exact ⟨unset, fun stopped => absurd (running.symm.trans stopped) Bool.false_ne_true, lasting⟩
  | step _ _ _ _ ih => exact ih

theorem EndsAt.mono (ends : w.EndsAt shunned' s e) (sub : shunned ⊆ shunned') :
    w.EndsAt shunned s e := by
  induction ends with
  | here new lasting running unset =>
    exact .here (fun member => new (sub member)) lasting running unset
  | step new lasting step _ ih => exact .step (fun member => new (sub member)) lasting step ih

/-- Paths are the same where all states have the same ways out and the same types. -/
theorem EndsAt.congr {v : Workspace} (ends : w.EndsAt shunned s e)
    (types : ∀ s, (v.state s).isTerminal = (w.state s).isTerminal)
    (exits : ∀ s, (v.state s).exit = (w.state s).exit) : v.EndsAt shunned s e := by
  induction ends with
  | here new lasting running unset =>
    apply EndsAt.here new ((types _).trans lasting)
    · rw [State.isStopped_of_exit (exits _), running]
    · rw [State.onward_of_exit (exits _), unset]
  | step new lasting step _ ih =>
    refine .step new ((types _).trans lasting) ?_ ih
    rw [Steps, State.onward_of_exit (exits _), step]

theorem EndsAt.unique (ends : w.EndsAt shunned s e) (ends' : w.EndsAt shunned' s e') : e = e' := by
  induction ends with
  | here _ _ _ unset =>
    cases ends' with
    | here => rfl
    | step _ _ step => cases unset.symm.trans step
  | step _ _ step _ ih =>
    cases ends' with
    | here _ _ _ unset => cases unset.symm.trans step
    | step _ _ step' rest => exact ih (step.unique step' ▸ rest)

/-- A path that ends does not come back to where it was. -/
theorem EndsAt.acyclic (ends : w.EndsAt shunned s e) : ¬ Relation.TransGen w.Steps s s := by
  induction ends with
  | here _ _ _ unset =>
    intro circle
    obtain ⟨t, step, -⟩ := Relation.TransGen.head'_iff.mp circle
    cases unset.symm.trans step
  | step _ _ step _ ih =>
    intro circle
    obtain ⟨t, step', back⟩ := Relation.TransGen.head'_iff.mp circle
    obtain rfl := step.unique step'
    exact ih (Relation.TransGen.tail' back step)

/-- A path avoids a state or goes through it and ends where the path from there does. -/
theorem EndsAt.avoids_or (ends : w.EndsAt shunned t e) (s : StateId) :
    w.EndsAt (s :: shunned) t e ∨
      Relation.ReflTransGen w.Steps t s ∧ w.EndsAt shunned s e := by
  induction ends with
  | @here t new lasting running unset =>
    by_cases same : t = s
    · exact .inr ⟨same ▸ .refl, same ▸ .here new lasting running unset⟩
    · exact .inl (.here (List.not_mem_cons_of_ne_of_not_mem same new) lasting running unset)
  | @step t u e new lasting step rest ih =>
    by_cases same : t = s
    · exact .inr ⟨same ▸ .refl, same ▸ .step new lasting step rest⟩
    · rcases ih with avoids | ⟨there, ends⟩
      · exact .inl (.step (List.not_mem_cons_of_ne_of_not_mem same new) lasting step avoids)
      · exact .inr ⟨.head step there, ends⟩

/-- Where a path goes on from a state it does not come back to it. -/
theorem EndsAt.after (step : w.Steps s t) (ends : w.EndsAt shunned t e) :
    w.EndsAt (s :: shunned) t e := by
  rcases ends.avoids_or s with avoids | ⟨back, -⟩
  · exact avoids
  · exact absurd (Relation.TransGen.tail' back step) ends.acyclic

theorem endsAt_iff_of_steps (new : s ∉ shunned) (lasting : (w.state s).isTerminal = false)
    (step : w.Steps s t) : w.EndsAt shunned s e ↔ w.EndsAt shunned t e := by
  constructor
  · rintro (⟨-, -, -, unset⟩ | ⟨-, -, step', rest⟩)
    · cases unset.symm.trans step
    · exact step.unique step' ▸ rest
  · exact .step new lasting step

section PathsEnd

variable {ends ends' : List StateId}

theorem exists_pathsEnd (w : Workspace) (shunned states : List StateId) :
    ∃ ends, w.PathsEnd shunned states ends := by
  induction states with
  | nil => exact ⟨[], .nil⟩
  | cons s states ih =>
    obtain ⟨ends, rest⟩ := ih
    by_cases found : ∃ e, w.EndsAt shunned s e
    · obtain ⟨e, here⟩ := found
      exact ⟨e :: ends, .found here rest⟩
    · exact ⟨ends, .lost (not_exists.mp found) rest⟩

theorem PathsEnd.mem_iff (all : w.PathsEnd shunned states ends) :
    e ∈ ends ↔ ∃ s ∈ states, w.EndsAt shunned s e := by
  induction all with
  | nil => simp
  | @found s f states ends here _ ih =>
    have same : e = f ↔ w.EndsAt shunned s e :=
      ⟨fun same => same ▸ here, fun ends => ends.unique here⟩
    rw [List.mem_cons, ih, same, List.exists_mem_cons_iff]
  | lost nowhere _ ih =>
    rw [ih, List.exists_mem_cons_iff]
    exact (or_iff_right (nowhere e)).symm

/-- To shun one more state takes away only ends that are the end of its own path. -/
theorem PathsEnd.filter_eq (all : w.PathsEnd shunned states ends)
    (rest : w.PathsEnd (s :: shunned) states ends') {keep : StateId → Bool}
    (drops : ∀ e, w.EndsAt shunned s e → keep e = false) :
    ends'.filter keep = ends.filter keep := by
  have less {t e : StateId} (ends : w.EndsAt (s :: shunned) t e) : w.EndsAt shunned t e :=
    ends.mono (List.subset_cons_self s shunned)
  induction all generalizing ends' with
  | nil =>
    cases rest
    rfl
  | @found t e states ends here _ ih =>
    cases rest with
    | found here' rest =>
      obtain rfl := here.unique here'
      rw [List.filter_cons, List.filter_cons, ih rest]
    | lost nowhere rest =>
      -- The path runs into the shunned state, so that it ends where the path from there does.
      rcases here.avoids_or s with avoids | ⟨-, ends⟩
      · exact absurd avoids (nowhere e)
      · rw [List.filter_cons, drops e ends, ih rest]
        rfl
  | lost nowhere _ ih =>
    cases rest with
    | found here' => exact absurd (less here') (nowhere _)
    | lost _ rest => exact ih rest

theorem PathsEnd.eq_of_nowhere (all : w.PathsEnd shunned states ends)
    (rest : w.PathsEnd (s :: shunned) states ends') (nowhere : ∀ e, ¬ w.EndsAt shunned s e) :
    ends' = ends := by
  have same : ends'.filter (fun _ => true) = ends.filter fun _ => true :=
    all.filter_eq rest fun e ends => absurd ends (nowhere e)
  simpa using same

theorem PathsEnd.not_mem (all : w.PathsEnd shunned states ends) (member : e ∈ ends) :
    e ∉ shunned := by
  obtain ⟨s, -, ends⟩ := all.mem_iff.mp member
  exact ends.end_not_mem

theorem PathsEnd.eraseDups_cons (all : w.PathsEnd shunned states ends)
    (rest : w.PathsEnd (s :: shunned) states ends') (here : w.EndsAt shunned s e) :
    (e :: ends').eraseDups = (e :: ends).eraseDups := by
  have same : ends'.filter (fun f => !f == e) = ends.filter (fun f => !f == e) := by
    apply all.filter_eq rest
    intro f there
    simp [there.unique here]
  rw [List.eraseDups_cons, List.eraseDups_cons, same]

end PathsEnd

/-- The states that a search has not seen. -/
def unseen (w : Workspace) (seen : List StateId) : Finset Nat :=
  (Finset.range w.states.size).filter fun i => ⟨i⟩ ∉ seen

theorem unseen_cons_subset (seen : List StateId) : w.unseen (s :: seen) ⊆ w.unseen seen :=
  Finset.monotone_filter_right _ fun _ _ new old => new (List.mem_cons_of_mem s old)

theorem card_unseen_cons_le (w : Workspace) (s : StateId) (seen : List StateId) :
    (w.unseen (s :: seen)).card ≤ (w.unseen seen).card :=
  Finset.card_le_card (unseen_cons_subset seen)

theorem card_unseen_cons_lt {seen : List StateId} (known : w.HasState s) (new : s ∉ seen) :
    (w.unseen (s :: seen)).card < (w.unseen seen).card := by
  apply Finset.card_lt_card
  refine ⟨unseen_cons_subset seen, fun same => ?_⟩
  have member : s.index ∈ w.unseen seen :=
    Finset.mem_filter.mpr ⟨Finset.mem_range.mpr known, new⟩
  exact (Finset.mem_filter.mp (same member)).2 List.mem_cons_self

theorem card_unseen_le (w : Workspace) (seen : List StateId) :
    (w.unseen seen).card ≤ w.states.size :=
  (Finset.card_filter_le _ _).trans (Finset.card_range _).le

theorem Steps.hasState (step : w.Steps s t) : w.HasState s := by
  by_contra unknown
  rw [Steps, state_of_not_hasState unknown] at step
  cases step

/-- The search finds the ends of all paths, each where it comes up first. Every step takes a state
from the work, and puts another one in its place only if it had not been seen. -/
theorem frontierFrom_eq {fuel : Nat} {seen work ends : List StateId}
    (enough : work.length + (w.unseen seen).card ≤ fuel) (all : w.PathsEnd seen work ends) :
    w.frontierFrom fuel seen work = ends.eraseDups := by
  fun_induction w.frontierFrom fuel seen work generalizing ends with
  | case1 seen work =>
    obtain rfl : work = [] := List.eq_nil_of_length_eq_zero (by omega)
    cases all
    rfl
  | case2 =>
    cases all
    rfl
  | case3 fuel seen s work old ih =>
    rw [List.length_cons] at enough
    cases all with
    | found here => exact absurd old here.not_mem
    | lost _ rest => exact ih (by omega) rest
  | case5 fuel seen s work new lasting unset ih =>
    have left := w.card_unseen_cons_le s seen
    rw [List.length_cons] at enough
    have self : w.EndsAt seen s s := by
      apply EndsAt.here new (Bool.eq_false_of_not_eq_true lasting)
      · rw [State.isStopped, unset]
      · rw [State.onward, unset]
    obtain ⟨ends', rest'⟩ := w.exists_pathsEnd (s :: seen) work
    cases all with
    | lost nowhere => exact absurd self (nowhere s)
    | @found _ e _ ends here rest =>
      obtain rfl := self.unique here
      have new : s ∉ ends' := fun member => rest'.not_mem member List.mem_cons_self
      have others : ends'.filter (fun f => !f == s) = ends' := by
        apply List.filter_eq_self.mpr
        intro f member
        simpa using ne_of_mem_of_not_mem member new
      rw [ih (by omega) rest', ← rest.eraseDups_cons rest' self, List.eraseDups_cons, others]
  | case6 fuel seen s work new lasting t next ih =>
    have step : w.Steps s t := by rw [Steps, State.onward, next]
    have left := card_unseen_cons_lt step.hasState new
    rw [List.length_cons] at enough
    have enough : (t :: work).length + (w.unseen (s :: seen)).card ≤ fuel := by
      rw [List.length_cons]
      omega
    have same {e : StateId} : w.EndsAt seen s e ↔ w.EndsAt seen t e :=
      endsAt_iff_of_steps new (Bool.eq_false_of_not_eq_true lasting) step
    obtain ⟨ends', rest'⟩ := w.exists_pathsEnd (s :: seen) work
    cases all with
    | found here rest =>
      rw [ih enough (.found ((same.mp here).after step) rest'), rest.eraseDups_cons rest' here]
    | lost nowhere rest =>
      have nowhere' : ∀ e, ¬ w.EndsAt (s :: seen) t e := fun e ends =>
        nowhere e (same.mpr (ends.mono (List.subset_cons_self s seen)))
      rw [ih enough (.lost nowhere' rest'), rest.eq_of_nowhere rest' nowhere]
  | case4 fuel seen s work new | case7 fuel seen s work new | case8 fuel seen s work new =>
    rename_i ih
    have left := w.card_unseen_cons_le s seen
    rw [List.length_cons] at enough
    have nowhere : ∀ e, ¬ w.EndsAt seen s e := by
      rintro e (⟨-, lasting, running, unset⟩ | ⟨-, lasting, step, -⟩)
      · simp_all [State.onward, State.isStopped]
      · simp_all [Steps, State.onward]
    obtain ⟨ends', rest'⟩ := w.exists_pathsEnd (s :: seen) work
    cases all with
    | found here => exact absurd here (nowhere _)
    | lost _ rest => rw [ih (by omega) rest', rest.eq_of_nowhere rest' nowhere]

theorem exists_choice (choice : (w.state s).type? = some .choice) :
    ∃ rules tails, (w.state s).kind = .choice rules tails := by
  rw [State.type?] at choice
  cases kind : (w.state s).kind with
  | choice rules tails => exact ⟨rules, tails, rfl⟩
  | _ => simp [kind, Kind.type?] at choice

/-- A choice without a default can be given one. -/
theorem open_of_choice (choice : (w.state s).type? = some .choice)
    (free : (w.state s).default? = none) : (w.state s).Open := by
  rw [State.default?, if_pos choice] at free
  exact ⟨free, fun _ => choice, by simp [State.isTerminal, choice, StateType.isTerminal]⟩

theorem frontier_eq {tails ends : List StateId} (all : w.PathsEnd [s] tails ends) :
    w.frontier s tails = ends.eraseDups := by
  apply frontierFrom_eq _ all
  have left := w.card_unseen_le [s]
  omega

theorem afterwards_eq (choice : (w.state s).type? = some .choice) {ends : List StateId}
    (all : w.PathsEnd [s] (w.state s).tails ends) : w.afterwards s =
      .ok ⟨s, ends.eraseDups ++ if (w.state s).default? = none then [s] else []⟩ := by
  obtain ⟨rules, tails, kind⟩ := exists_choice choice
  have listed : (w.state s).tails = tails := by rw [State.tails, kind]
  rw [afterwards, kind, State.default?, if_pos choice]
  simp only [frontier_eq (listed ▸ all), Option.isNone_iff_eq_none]

/-- What comes after a choice. The search for it comes to its end. The open ends are the states at
which the paths of the branches end, each where it comes up first, and behind them the choice itself
exactly if it has no default. All of them can be wired, so that it can be continued with anything
unless there are none. -/
theorem afterwards_frontier {c : StateId} (choice : (w.state c).type? = some .choice) :
    ∃ ends openEnds, w.PathsEnd [c] (w.state c).tails ends ∧
      openEnds = ends.eraseDups ++ (if (w.state c).default? = none then [c] else []) ∧
      (∀ fuel, (w.state c).tails.length + w.states.size ≤ fuel →
        w.frontierFrom fuel [c] (w.state c).tails = ends.eraseDups) ∧
      w.afterwards c = .ok ⟨c, openEnds⟩ ∧
      (∀ s ∈ openEnds, ∀ attempt, w.checkUnwired s attempt = .ok ()) ∧
      ∀ d : Destination, d.Valid →
        ((∃ made v, Chain.next ⟨c, openEnds⟩ d w = .ok made v) ↔ openEnds ≠ []) := by
  obtain ⟨ends, all⟩ := w.exists_pathsEnd [c] (w.state c).tails
  have found := afterwards_eq choice all
  generalize shown : ends.eraseDups ++ (if (w.state c).default? = none then [c] else []) =
    openEnds at found
  have able : ∀ s ∈ openEnds, (w.state s).Open := by
    intro s member
    rw [← shown, List.mem_append, List.mem_eraseDups] at member
    rcases member with found | last
    · obtain ⟨t, -, ends⟩ := all.mem_iff.mp found
      exact ends.open
    · split at last
      · rename_i free
        exact List.mem_singleton.mp last ▸ open_of_choice choice free
      · cases last
  refine ⟨ends, openEnds, all, shown.symm, ?_, found, ?_, ?_⟩
  · intro fuel enough
    have left := w.card_unseen_le [c]
    exact frontierFrom_eq (by omega) all
  · exact fun s member attempt => checkUnwired_eq_ok.mpr (able s member)
  · intro d valid
    obtain ⟨target, later, resolved⟩ := w.resolve_of_valid valid
    constructor
    · rintro ⟨made, v, ok⟩
      exact (Build.next_eq_ok.mp ok).1
    · intro some
      obtain ⟨v, wired⟩ :=
        (Build.wire_givesExit target).forM_ok (afterwards_distinct found) able
      exact ⟨_, v, Build.next_eq_ok.mpr ⟨some, target, later, resolved, rfl, wired⟩⟩

/-- A choice with two branches that merge and one that leads back to it. -/
def merging : Workspace where
  scopes := #[{ id := "T", path := "T", parent := none }]
  states :=
    let rule (s : StateId) : Rule Target := ⟨.compare "$.kind" "IsPresent" (.bool true), .state s⟩
    let pass (name : String) (exit : Exit) : State :=
      { scope := ⟨0⟩, id := name, path := "T/" ++ name, name, common := {}, kind := .pass {}, exit }
    #[{ scope := ⟨0⟩, id := "Route", path := "T/Route", name := "Route", common := {},
        kind := .choice [rule ⟨1⟩, rule ⟨3⟩, rule ⟨2⟩] [⟨1⟩, ⟨3⟩, ⟨2⟩] },
      pass "Long" (.next (.state ⟨2⟩)), pass "Short" .unset, pass "Again" (.next (.state ⟨0⟩))]

theorem merging_frontier :
    (merging.state ⟨0⟩).type? = some .choice ∧
      (∃ ends, merging.PathsEnd [⟨0⟩] [⟨1⟩, ⟨3⟩, ⟨2⟩] ends ∧ ends.eraseDups = [⟨2⟩]) ∧
      merging.afterwards ⟨0⟩ = .ok ⟨⟨0⟩, [⟨2⟩, ⟨0⟩]⟩ ∧ (Destination.name "Join").Valid ∧
      ∃ made v, Chain.next ⟨⟨0⟩, [⟨2⟩, ⟨0⟩]⟩ (.name "Join") merging = .ok made v := by
  have choice : (merging.state ⟨0⟩).type? = some .choice := rfl
  obtain ⟨ends, openEnds, all, shown, search, found, -, continued⟩ := afterwards_frontier choice
  have after : merging.afterwards ⟨0⟩ = .ok ⟨⟨0⟩, [⟨2⟩, ⟨0⟩]⟩ := rfl
  obtain rfl : [⟨2⟩, ⟨0⟩] = openEnds := (Chain.mk.inj (Except.ok.inj (after.symm.trans found))).2
  have ended : [⟨2⟩] = ends.eraseDups := search 8 (by decide)
  have valid : (Destination.name "Join").Valid := by simp [Destination.Valid]
  exact ⟨choice, ⟨ends, all, ended.symm⟩, after, valid,
    (continued _ valid).mpr (List.cons_ne_nil _ _)⟩

end Workspace
end Workflow
