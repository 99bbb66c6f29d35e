import Mathlib.Data.Finset.Card
import Workflow.Proofs.Compilation

/-!
Compiling comes to an end. Every step of a walk registers a state of the workspace that was not
registered, however the graphs of the states are nested in each other, so that the steps that a walk
is given are never used up.
-/

namespace Workflow

namespace State

/-- The faults that an incomplete state is refused with. All of them name the state, but for that of
an unbound task, which names the field that the task lacks. -/
inductive Refused (s : State) : Fault → Prop
  | misconfigured (reason : Misconfiguration) : Refused s (.misconfigured s.name reason)
  | duration (given : List String) : Refused s (.waitDuration s.name given)
  | unterminated : Refused s (.unterminated s.name s.path)
  | unbound (kind : s.kind = .unbound) : Refused s (.unsupported s.typeName "timeout_seconds")

variable {s : State} {fault : Fault}

theorem refused_of_checkOptional {field : String} {value : Json}
    (refused : checkOptional s.name field value = .error fault) : s.Refused fault := by
  unfold checkOptional checkNatural at refused
  split at refused
  · cases refused
  · split at refused
    · cases refused
    · cases refused
      exact .misconfigured _

/-- A check of an optional field is refused by itself or by what is checked next. -/
theorem refused_of_checkOptional_bind {α : Type} {field : String} {value : Json}
    {next : Option Nat → Except Fault α}
    (later : ∀ n, next n = .error fault → s.Refused fault)
    (refused : (checkOptional s.name field value >>= next) = .error fault) : s.Refused fault := by
  rcases Outcome.bind_eq_error.mp refused with first | ⟨n, -, rest⟩
  · exact refused_of_checkOptional first
  · exact later n rest

theorem refused_of_checkFields (refused : s.checkFields = .error fault) : s.Refused fault := by
  unfold checkFields at refused
  split at refused
  case h_1 =>
    refine refused_of_checkOptional_bind ?_ refused
    intro timeout
    refine refused_of_checkOptional_bind ?_
    intro heartbeat refused
    split at refused
    · split at refused
      · cases refused
        exact .misconfigured _
      · cases refused
    · cases refused
  case h_2 =>
    split at refused
    · cases refused
      exact .duration _
    · refine refused_of_checkOptional_bind ?_ refused
      intro n refused
      cases refused
  case h_3 =>
    split at refused
    · cases refused
      exact .misconfigured _
    · cases refused
  case h_4 =>
    split at refused
    · cases refused
      exact .misconfigured _
    · refine refused_of_checkOptional_bind ?_ refused
      intro n refused
      cases refused
  case h_5 kind =>
    cases refused
    exact .unbound kind
  case h_6 => cases refused

theorem refused_of_validate (refused : s.validate = .error fault) : s.Refused fault := by
  unfold validate at refused
  split at refused
  · split at refused
    · cases refused
      exact .misconfigured _
    · cases refused
  · rcases Outcome.bind_eq_error.mp refused with exit | ⟨-, -, fields⟩
    · unfold checkExit at exit
      split at exit
      · split at exit
        · cases exit
        · cases exit
          exact .unterminated
      · cases exit
    · exact refused_of_checkFields fields

theorem validate_ne_exhausted (s : State) : s.validate ≠ .error .exhausted := by
  intro refused
  cases refused_of_validate refused

end State

namespace Workspace

variable {w : Workspace} {label : String} {registry registry' : Registry}

def unregistered (w : Workspace) (registry : Registry) : Finset Nat :=
  (Finset.range w.states.size).filter fun i => ∀ r ∈ registry, r.state.index ≠ i

theorem unregistered_append_subset (more : Registry) :
    w.unregistered (registry ++ more) ⊆ w.unregistered registry :=
  Finset.monotone_filter_right _ fun _ _ free r member => free r (List.mem_append_left _ member)

/-- A complete state is one of the workspace: what is not has no way out. -/
theorem index_lt_of_complete {s : StateId} (complete : (w.state s).validate = .ok ()) :
    s.index < w.states.size := by
  by_contra outside
  have absent : w.state s = default := by
    simp only [state, Array.getD_eq_getD_getElem?]
    rw [Array.getElem?_eq_none (by omega)]
    rfl
  rw [absent] at complete
  cases complete

theorem card_unregistered_lt {s : StateId} {entered : Registry}
    (registered : w.register label registry s = .ok entered)
    (complete : (w.state s).validate = .ok ()) :
    (w.unregistered entered).card < (w.unregistered registry).card := by
  obtain ⟨new, -, -, rfl⟩ := register_eq_ok.mp registered
  apply Finset.card_lt_card
  refine ⟨unregistered_append_subset _, fun same => ?_⟩
  have free : s.index ∈ w.unregistered registry := by
    refine Finset.mem_filter.mpr ⟨Finset.mem_range.mpr (index_lt_of_complete complete), ?_⟩
    intro r member equal
    exact new r member (congrArg StateId.mk equal)
  exact (Finset.mem_filter.mp (same free)).2 _ (List.mem_append_right _ List.mem_cons_self) rfl

variable (w) in
theorem card_unregistered_append_le (registry more : Registry) :
    (w.unregistered (registry ++ more)).card ≤ (w.unregistered registry).card :=
  Finset.card_le_card (unregistered_append_subset more)

theorem register_ne_exhausted {s : StateId} :
    w.register label registry s ≠ .error .exhausted := by
  unfold register
  dsimp only
  split
  · simp
  · simp
  · split <;> simp

theorem resolveLevel_ne_exhausted {members : Members} :
    w.resolveLevel label members ≠ .error .exhausted := by
  intro refused
  obtain ⟨e, -, refused⟩ := Outcome.exists_of_forM_eq_error refused
  obtain ⟨t, -, refused⟩ := Outcome.exists_of_forM_eq_error refused
  dsimp only at refused
  split at refused <;> cases refused

theorem compileLevels_ne_exhausted
    {compile : String → Registry → StateId → Except Fault (Registry × Level)}
    {graphs : List (String × StateId)}
    (grows : ∀ {label registry start registry' level},
      compile label registry start = .ok (registry', level) → ∃ more, registry' = registry ++ more)
    (ends : ∀ label more start, compile label (registry ++ more) start ≠ .error .exhausted) :
    compileLevels compile registry graphs ≠ .error .exhausted := by
  induction graphs generalizing registry with
  | nil => simp [compileLevels]
  | cons graph graphs ih =>
    obtain ⟨label, start⟩ := graph
    intro refused
    simp only [compileLevels, Outcome.bind_eq_error, pure, Except.pure, reduceCtorEq, and_false,
      exists_false, or_false] at refused
    rcases refused with first | ⟨⟨between, level⟩, first, rest⟩
    · exact ends label [] start (by rwa [List.append_nil])
    · obtain ⟨grown, rfl⟩ := grows first
      refine ih (fun label more start => ?_) rest
      rw [List.append_assoc]
      exact ends label (grown ++ more) start

theorem compileBy_ne_exhausted
    {find : String → Registry → Members → List StateId → Except Fault (Registry × Members)}
    {start : StateId} (ends : find label registry [] [start] ≠ .error .exhausted) :
    w.compileBy find label registry start ≠ .error .exhausted := by
  intro refused
  simp only [compileBy, Outcome.bind_eq_error, pure, Except.pure, reduceCtorEq, and_false,
    exists_false, or_false] at refused
  rcases refused with refused | ⟨found, -, refused⟩
  · exact ends refused
  · exact resolveLevel_ne_exhausted refused

/-- A walk that may take more steps than there are states left does not use them up. -/
theorem walk_ne_exhausted {fuel : Nat} {found : Members} {pending : List StateId}
    (enough : (w.unregistered registry).card < fuel) :
    w.walk fuel label registry found pending ≠ .error .exhausted := by
  induction fuel generalizing label registry found pending with
  | zero => omega
  | succ fuel ih =>
    rw [walk]
    cases pending.dropWhile (w.lists found) with
    | nil => simp
    | cons s rest =>
      intro refused
      simp only [Outcome.bind_eq_error] at refused
      rcases refused with refused | ⟨entered, registered, refused⟩
      · exact register_ne_exhausted refused
      rcases refused with refused | ⟨⟨⟩, complete, refused⟩
      · exact State.validate_ne_exhausted _ refused
      have fewer := card_unregistered_lt registered complete
      have left (more : Registry) : (w.unregistered (entered ++ more)).card < fuel := by
        have := w.card_unregistered_append_le entered more
        omega
      rcases refused with refused | ⟨⟨explored, levels⟩, nested, refused⟩
      · exact compileLevels_ne_exhausted (fun ok => ⟨_, (compileBy_walk_ok ok).grown⟩)
          (fun _ more _ => compileBy_ne_exhausted (ih (left more))) refused
      · obtain ⟨rfl, -⟩ := compileLevels_ok compileBy_walk_ok nested
        exact ih (left _) refused

variable (w) in
theorem card_unregistered_le (registry : Registry) :
    (w.unregistered registry).card ≤ w.states.size :=
  (Finset.card_filter_le _ _).trans (Finset.card_range _).le

theorem compileLevel_ne_exhausted {start : StateId} :
    w.compileLevel label registry start ≠ .error .exhausted :=
  compileBy_ne_exhausted (walk_ne_exhausted (Nat.lt_succ_of_le (w.card_unregistered_le registry)))

end Workspace
end Workflow
