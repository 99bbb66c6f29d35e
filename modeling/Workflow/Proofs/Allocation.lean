import Mathlib.Data.List.Perm.Subperm
import Workflow.Proofs.Footprint
import Workflow.Proofs.Naming

/-!
The ids of a scope. A request is granted the id itself where it is free, and otherwise the id with
the least suffix that makes it free. The search does not begin at the least suffix but where the
last one for the same id ended. Nothing is missed by that: all suffixes up to there were found
taken, and what is taken stays taken, also where ids look like suffixed ones.
-/

namespace Workflow
namespace Scope

variable {taken : List String} {id granted : String} {scope new : Scope}

/-- The id that is due to a request: the id that is asked for if it is free, and otherwise that id
with the least suffix from two upwards that makes it free. -/
inductive Due (taken : List String) (id : String) : String → Prop
  | bare : id ∉ taken → Due taken id id
  | suffixed {n : Nat} : id ∈ taken → 2 ≤ n → Scope.suffixed id n ∉ taken →
      (∀ m, 2 ≤ m → m < n → Scope.suffixed id m ∈ taken) → Due taken id (Scope.suffixed id n)

/-- The ids that are due to requests, one after the other. -/
inductive AllDue : (taken ids granted : List String) → Prop
  | nil {taken : List String} : AllDue taken [] []
  | cons {taken ids others : List String} {id granted : String} : Due taken id granted →
      AllDue (granted :: taken) ids others → AllDue taken (id :: ids) (granted :: others)

/-- How an id is searched: a candidate that is free is granted, and one that is taken gives way to
the next suffix. -/
inductive Tries (taken : List String) (id : String) :
    (candidate : String) → (count : Nat) → (granted : String) → (last : Nat) → Prop
  | free {candidate : String} {count : Nat} : candidate ∉ taken →
      Tries taken id candidate count candidate count
  | again {candidate granted : String} {count last : Nat} : candidate ∈ taken →
      Tries taken id (suffixed id (count + 1)) (count + 1) granted last →
      Tries taken id candidate count granted last

/-- Whether all suffixes up to the last one tried for an id are taken. -/
def Counted (scope : Scope) : Prop :=
  ∀ id, 1 ≤ scope.counter id ∧ ∀ n, 2 ≤ n → n ≤ scope.counter id → suffixed id n ∈ scope.taken

/-- Whether two scopes have allocated the same ids in the same way. -/
structure SameIds (new scope : Scope) : Prop where
  counters : new.counters = scope.counters
  taken : new.taken = scope.taken

/-- What becomes of the ids of a scope by a request, if there is one, and what it is granted. -/
inductive Allocates (scope new : Scope) : (asked granted : Option String) → Prop
  | idle : new.SameIds scope → Allocates scope new none none
  | grant {id granted : String} {reserved : Scope} :
      scope.allocate id = .ok (granted, reserved) → new.SameIds reserved →
      Allocates scope new (some id) (some granted)

theorem SameIds.refl (scope : Scope) : scope.SameIds scope := ⟨rfl, rfl⟩

theorem SameIds.counted (same : new.SameIds scope) (counted : scope.Counted) : new.Counted := by
  intro id
  rw [counter, same.counters, same.taken]
  exact counted id

theorem Due.not_mem (due : Due taken id granted) : granted ∉ taken := by
  cases due with
  | bare free | suffixed _ _ free => exact free

theorem AllDue.nodup {ids granted : List String} (due : AllDue taken ids granted) :
    granted.Nodup ∧ ∀ g ∈ granted, g ∉ taken := by
  induction due with
  | nil => exact ⟨.nil, fun _ member => absurd member List.not_mem_nil⟩
  | cons here _ ih =>
    obtain ⟨distinct, apart⟩ := ih
    constructor
    · exact List.nodup_cons.mpr ⟨fun member => apart _ member List.mem_cons_self, distinct⟩
    · intro g member old
      rcases List.mem_cons.mp member with rfl | later
      · exact here.not_mem old
      · exact apart g later (List.mem_cons_of_mem _ old)

theorem suffixed_injective (id : String) : Function.Injective (suffixed id) := by
  intro m n same
  have written : Nat.repr m = Nat.repr n := (String.append_right_inj (id ++ "_")).mp same
  have digits := congrArg (fun text => Nat.ofDigitChars 10 text.toList 0) written
  simpa using digits

/-- The suffixes above a number cannot all be taken, as they are different. -/
theorem exists_free_suffix (taken : List String) (id : String) (last : Nat) :
    ∃ k ∈ List.range (taken.length + 1), suffixed id (last + 1 + k) ∉ taken := by
  by_contra! full
  let tried := (List.range (taken.length + 1)).map fun k => suffixed id (last + 1 + k)
  have distinct : tried.Nodup := by
    refine List.nodup_range.map fun k l same => ?_
    exact Nat.add_left_cancel (suffixed_injective id same)
  have inside : tried ⊆ taken := List.forall_mem_map.mpr full
  have fits := (distinct.subperm inside).length_le
  simp only [tried, List.length_map, List.length_range] at fits
  omega

theorem freeSuffix_spec (taken : List String) (id : String) (last : Nat) :
    last < freeSuffix taken id last ∧ suffixed id (freeSuffix taken id last) ∉ taken ∧
      ∀ m, last < m → m < freeSuffix taken id last → suffixed id m ∈ taken := by
  obtain ⟨k, member, free⟩ := exists_free_suffix taken id last
  cases found : (List.range (taken.length + 1)).find?
      fun k => suffixed id (last + 1 + k) ∉ taken with
  | none => exact absurd free (by simpa using List.find?_eq_none.mp found k member)
  | some n =>
    obtain ⟨free, -, least⟩ := List.find?_range_eq_some.mp found
    have here : freeSuffix taken id last = last + 1 + n := by
      rw [freeSuffix, found]
      rfl
    rw [here]
    refine ⟨by omega, by simpa using free, ?_⟩
    intro m above below
    obtain ⟨j, rfl⟩ : ∃ j, m = last + 1 + j := ⟨m - (last + 1), by omega⟩
    simpa using least j (by omega)

/-- The search goes through suffixes that are taken and ends at the first that is free. -/
theorem tries_of_least {candidate : String} {count n : Nat} (occupied : candidate ∈ taken)
    (above : count < n) (free : suffixed id n ∉ taken)
    (least : ∀ m, count < m → m < n → suffixed id m ∈ taken) :
    Tries taken id candidate count (suffixed id n) n := by
  apply Tries.again occupied
  rcases Nat.lt_or_eq_of_le (Nat.succ_le_of_lt above) with more | rfl
  · apply tries_of_least (least _ (Nat.lt_succ_self count) more) more free
    exact fun m later => least m (Nat.lt_of_succ_lt later)
  · exact .free free
termination_by n - count

/-- An id with its suffixes up to a number taken is due the suffix that the search from there on
finds. -/
theorem due_freeSuffix {last : Nat} (occupied : id ∈ taken) (started : 1 ≤ last)
    (before : ∀ n, 2 ≤ n → n ≤ last → suffixed id n ∈ taken) :
    Due taken id (suffixed id (freeSuffix taken id last)) := by
  obtain ⟨above, free, least⟩ := freeSuffix_spec taken id last
  apply Due.suffixed occupied (by omega) free
  intro m from_two below
  rcases Nat.lt_or_ge last m with later | earlier
  · exact least m later below
  · exact before m from_two earlier

theorem Due.unique {other : String} (due : Due taken id granted) (due' : Due taken id other) :
    granted = other := by
  cases due with
  | bare free =>
    cases due' with
    | bare => rfl
    | suffixed occupied => exact absurd occupied free
  | @suffixed n occupied from_two free least =>
    cases due' with
    | bare free' => exact absurd occupied free'
    | @suffixed m _ from_two' free' least' =>
      rcases Nat.lt_trichotomy n m with less | rfl | more
      · exact absurd (least' n from_two less) free
      · rfl
      · exact absurd (least m from_two' more) free'

theorem allocate_eq_ok : scope.allocate id = .ok (granted, new) ↔ id.isEmpty = false ∧
    (id ∉ scope.taken ∧ granted = id ∧
        new = { scope with
          counters := (id, scope.counter id) :: scope.counters, taken := id :: scope.taken } ∨
      ∃ n, n = freeSuffix scope.taken id (scope.counter id) ∧ id ∈ scope.taken ∧
        granted = suffixed id n ∧
        new = { scope with
          counters := (id, n) :: scope.counters, taken := suffixed id n :: scope.taken }) := by
  unfold allocate
  by_cases empty : id.isEmpty = true
  · simp [empty]
  · by_cases occupied : id ∈ scope.taken <;> simp [empty, occupied, eq_comm]

theorem allocate_of_isEmpty (scope : Scope) (empty : id.isEmpty = true) :
    scope.allocate id = .error (.emptyChildId scope.path) := by
  rw [allocate, if_pos empty]

theorem taken_of_allocate (ok : scope.allocate id = .ok (granted, new)) :
    granted ∉ scope.taken ∧ new.taken = granted :: scope.taken := by
  obtain ⟨-, ⟨free, rfl, rfl⟩ | ⟨n, rfl, -, rfl, rfl⟩⟩ := allocate_eq_ok.mp ok
  · exact ⟨free, rfl⟩
  · exact ⟨(freeSuffix_spec _ _ _).2.1, rfl⟩

theorem place_of_allocate (ok : scope.allocate id = .ok (granted, new)) :
    new.id = scope.id ∧ new.path = scope.path ∧ new.parent = scope.parent := by
  obtain ⟨-, ⟨-, -, rfl⟩ | ⟨n, -, -, -, rfl⟩⟩ := allocate_eq_ok.mp ok <;> exact ⟨rfl, rfl, rfl⟩

theorem Allocates.taken_subset {asked given : Option String}
    (allocates : scope.Allocates new asked given) : scope.taken ⊆ new.taken := by
  cases allocates with
  | idle same => exact same.taken.symm ▸ List.Subset.refl _
  | grant ok same =>
    rw [same.taken, (taken_of_allocate ok).2]
    exact List.subset_cons_self _ _

theorem Counted.grant (counted : scope.Counted) {count : Nat} (started : 1 ≤ count)
    (all : ∀ n, 2 ≤ n → n ≤ count → suffixed id n ∈ granted :: scope.taken) :
    Counted { scope with
      counters := (id, count) :: scope.counters, taken := granted :: scope.taken } := by
  intro other
  simp only [counter, List.lookup_cons]
  by_cases same : other = id
  · subst same
    rw [beq_self_eq_true]
    exact ⟨started, all⟩
  · rw [beq_eq_false_iff_ne.mpr same]
    obtain ⟨started, before⟩ := counted other
    exact ⟨started, fun n from_two within => List.mem_cons_of_mem _ (before n from_two within)⟩

/-- A request with an id is granted the one that is due, which is taken from then on. The search for
it ends, and yields what the search from the least suffix does. -/
theorem allocate_spec (counted : scope.Counted) (given : id.isEmpty = false) :
    ∃ granted new, scope.allocate id = .ok (granted, new) ∧ Due scope.taken id granted ∧
      new.taken = granted :: scope.taken ∧ new.Counted ∧
      Tries scope.taken id id (scope.counter id) granted (new.counter id) ∧
      ∃ other, Scope.allocate { scope with counters := [] } id = .ok (granted, other) := by
  obtain ⟨started, before⟩ := counted id
  by_cases occupied : id ∈ scope.taken
  · generalize last : freeSuffix scope.taken id (scope.counter id) = n
    obtain ⟨above, free, least⟩ := freeSuffix_spec scope.taken id (scope.counter id)
    have due := due_freeSuffix occupied started before
    have naive : Due scope.taken id (suffixed id (freeSuffix scope.taken id 1)) :=
      due_freeSuffix occupied (Nat.le_refl 1) fun n _ _ => by omega
    have same := due.unique naive
    rw [last] at above free least due same
    refine ⟨_, _, allocate_eq_ok.mpr ⟨given, .inr ⟨n, last.symm, occupied, rfl, rfl⟩⟩, due, rfl, ?_,
      ?_, _, allocate_eq_ok.mpr ⟨given, .inr ⟨_, rfl, occupied, same, rfl⟩⟩⟩
    · apply counted.grant (by omega)
      intro m from_two within
      rcases Nat.lt_or_eq_of_le within with less | rfl
      · rcases Nat.lt_or_ge (scope.counter id) m with later | earlier
        · exact List.mem_cons_of_mem _ (least m later less)
        · exact List.mem_cons_of_mem _ (before m from_two earlier)
      · exact List.mem_cons_self
    · simpa [counter] using tries_of_least occupied above free least
  · refine ⟨_, _, allocate_eq_ok.mpr ⟨given, .inl ⟨occupied, rfl, rfl⟩⟩, .bare occupied, rfl, ?_,
      ?_, _, allocate_eq_ok.mpr ⟨given, .inl ⟨occupied, rfl, rfl⟩⟩⟩
    · apply counted.grant started
      exact fun n from_two within => List.mem_cons_of_mem _ (before n from_two within)
    · simpa [counter] using Tries.free occupied

end Scope

namespace Operation

/-- The id that an operation asks for in a scope, be it as such, for a scope or for a state. -/
def asks? (c : ScopeId) : Operation → Option String
  | edit (.allocate d id) | edit (.state d id _ _ _) =>
    if d = c ∧ id.isEmpty = false then some id else none
  | edit (.scope id parent) =>
    if parent = some c ∧ id.isEmpty = false ∧ '/' ∉ id.toList then some id else none
  | _ => none

/-- The id that an operation gets in a scope: what it returns, or what the scope or the state that
it defines has. A state that is refused for its resource has an id, too. -/
def gets? (c : ScopeId) (w : Workspace) : Operation → Option String
  | edit (.allocate d id) =>
    if d = c then match Build.allocate d id w with
      | .ok granted _ => some granted
      | .error _ _ => none
    else none
  | edit (.scope id parent) =>
    if parent = some c then match Build.scope id parent w with
      | .ok new v => some (v.scope new).id
      | .error _ _ => none
    else none
  | edit (.state d id name common description) =>
    let v := (Build.state d id name common description).after w
    if d = c ∧ v.HasState ⟨w.states.size⟩ then some (v.state ⟨w.states.size⟩).id else none
  | _ => none

/-- Whether an operation defines a state without a name of its own. -/
def Unnamed : Operation → Prop
  | edit (.state _ _ name _ _) => (name.filter fun given => !given.isEmpty) = none
  | _ => False

end Operation

namespace Workspace

/-- The ids that operations, one after the other, get in a scope. -/
def obtained (c : ScopeId) (w : Workspace) : List Operation → List String
  | [] => []
  | op :: ops => (op.gets? c w).toList ++ obtained c (op.after w) ops

/-- Whether a state is defined by one of the operations, without a name of its own. -/
def DefinesUnnamed (s : StateId) (w : Workspace) : List Operation → Prop
  | [] => False
  | op :: ops => s = ⟨w.states.size⟩ ∧ (op.after w).HasState s ∧ op.Unnamed ∨
      DefinesUnnamed s (op.after w) ops

variable {w v : Workspace} {c d : ScopeId} {s : StateId} {id granted : String} {scope : Scope}
  {op : Operation}

theorem scope_define (w : Workspace) (c d : ScopeId) (new : State) : (w.define c new).scope d =
    if d = c ∧ w.HasScope c then (w.scope c).define new.name ⟨w.states.size⟩ else w.scope d :=
  scope_setScope _ c d _

theorem sameIds_define (w : Workspace) (c d : ScopeId) (new : State) :
    ((w.define c new).scope d).SameIds (w.scope d) := by
  rw [scope_define]
  split
  · rename_i here
    rw [here.1]
    exact ⟨rfl, rfl⟩
  · exact .refl _

theorem sameIds_push (w : Workspace) (new : Scope) (counters : new.counters = [])
    (taken : new.taken = []) (c : ScopeId) :
    (Workspace.scope { w with scopes := w.scopes.push new } c).SameIds (w.scope c) := by
  rw [scope_push]
  split
  · rename_i last
    rw [last, scope_of_not_hasScope w.not_hasScope_next]
    exact ⟨counters, taken⟩
  · exact .refl _

/-- A scope in which an id is reserved allocates it, and the others do not. -/
theorem allocates_setScope (known : w.HasScope d)
    (ok : (w.scope d).allocate id = .ok (granted, scope))
    (same : ∀ c, (v.scope c).SameIds ((w.setScope d scope).scope c)) (c : ScopeId) :
    (w.scope c).Allocates (v.scope c) (if d = c then some id else none)
      (if d = c then some granted else none) := by
  have here := same c
  rw [scope_setScope] at here
  by_cases own : d = c
  · subst own
    rw [if_pos rfl, if_pos rfl]
    rw [if_pos ⟨rfl, known⟩] at here
    exact .grant ok here
  · rw [if_neg own, if_neg own]
    rw [if_neg fun there => own there.1.symm] at here
    exact .idle here

theorem allocates_allocate (known : w.HasScope d) (id : String) (c : ScopeId) :
    (w.scope c).Allocates (((Build.allocate d id).after w).scope c)
      (Operation.asks? c (.edit (.allocate d id)))
      (Operation.gets? c w (.edit (.allocate d id))) := by
  simp only [Operation.asks?, Operation.gets?]
  cases given : id.isEmpty with
  | true =>
    have refused := Build.allocate_of_error ((w.scope d).allocate_of_isEmpty given)
    simp only [Build.after, refused, Bool.true_eq_false, and_false, ite_false, ite_self]
    exact .idle (.refl _)
  | false =>
    obtain ⟨granted, scope, ok⟩ := (w.scope d).exists_allocate given
    simp only [Build.after, Build.allocate_of_ok ok, and_true]
    exact allocates_setScope known ok (fun _ => .refl _) c

theorem allocates_scope (id : String) {parent : Option ScopeId}
    (known : ∀ d ∈ parent, w.HasScope d) (c : ScopeId) :
    (w.scope c).Allocates (((Build.scope id parent).after w).scope c)
      (Operation.asks? c (.edit (.scope id parent)))
      (Operation.gets? c w (.edit (.scope id parent))) := by
  simp only [Operation.asks?, Operation.gets?]
  by_cases legal : id.isEmpty = false ∧ '/' ∉ id.toList
  · cases parent with
    | none =>
      have new := sameIds_push w { id, path := id, parent := none } rfl rfl c
      simp only [Build.after, Build.scope_of_legal legal, reduceCtorEq, false_and, ite_false]
      exact .idle new
    | some d =>
      obtain ⟨granted, scope, ok⟩ := (w.scope d).exists_allocate legal.1
      obtain ⟨new, same, counters, taken, made, -⟩ := Build.scope_of_ok legal ok
      have size : (w.setScope d scope).scopes.size = w.scopes.size := Array.size_setIfInBounds
      have last : (Workspace.scope { w.setScope d scope with
          scopes := (w.setScope d scope).scopes.push new } ⟨w.scopes.size⟩) = new :=
        (scope_push _ _ _).trans (if_pos (by rw [size]))
      simp only [Build.after, made, last, same, legal, not_false_eq_true, and_true,
        Option.some.injEq]
      exact allocates_setScope (known d rfl) ok (sameIds_push _ new counters taken) c
  · obtain ⟨fault, refused⟩ := Build.scope_of_illegal (w := w) legal parent
    simp only [Build.after, refused, legal, and_false, ite_false, ite_self]
    exact .idle (.refl _)

theorem allocates_state (known : w.HasScope d) (id : String) (name : Option String)
    (common : CommonFields) (description : Description) (c : ScopeId) :
    (w.scope c).Allocates (((Build.state d id name common description).after w).scope c)
      (Operation.asks? c (.edit (.state d id name common description)))
      (Operation.gets? c w (.edit (.state d id name common description))) := by
  simp only [Operation.asks?, Operation.gets?]
  cases given : id.isEmpty with
  | true =>
    have refused := Build.state_of_error ((w.scope d).allocate_of_isEmpty given)
      name common description
    simp only [Build.after, refused, w.not_hasState_next, Bool.true_eq_false, and_false, ite_false]
    exact .idle (.refl _)
  | false =>
    obtain ⟨granted, scope, ok⟩ := (w.scope d).exists_allocate given
    obtain ⟨new, own, same, -, defined, -⟩ := Build.state_of_ok ok name common description
    have there : ((w.setScope d scope).define d new).HasState ⟨w.states.size⟩ :=
      hasState_define.mpr (.inr rfl)
    have last : ((w.setScope d scope).define d new).state ⟨w.states.size⟩ = new :=
      (state_define _ _ _ _).trans (if_pos rfl)
    simp only [defined, there, last, same, and_true]
    exact allocates_setScope known ok (fun c => sameIds_define _ _ c _) c

/-- What an operation does to the ids of a scope: it allocates the one that it asks for, and gets
what is granted. -/
theorem allocates_after (within : op.Within w) (c : ScopeId) :
    (w.scope c).Allocates ((op.after w).scope c) (op.asks? c) (op.gets? c w) := by
  have idle {v : Workspace} (same : v.scopes = w.scopes) :
      (w.scope c).Allocates (v.scope c) none none := by
    rw [scope_of_scopes same]
    exact .idle (.refl _)
  cases op with
  | inquiry q => exact idle (asked_inquiry within).scopes
  | edit e =>
    cases e with
    | allocate d id => exact allocates_allocate within id c
    | scope id parent => exact allocates_scope id within c
    | state d id name common description =>
      exact allocates_state within id name common description c
    | rename | wire | stop | retry | handle | rule | otherwise | branches | iterator | next
    | finish => exact idle (frame_edit rfl w).scopes

/-- Whether the ids of the states are taken in their scopes, each by one state. -/
structure Issued (w : Workspace) : Prop where
  taken : ∀ {s : StateId}, w.HasState s → (w.state s).id ∈ (w.scope (w.state s).scope).taken
  unique : ∀ {s t : StateId}, w.HasState s → w.HasState t →
    (w.state s).scope = (w.state t).scope → (w.state s).id = (w.state t).id → s = t

theorem Change.identity (change : w.Change v) (known : w.HasState s) :
    (v.state s).scope = (w.state s).scope ∧ (v.state s).id = (w.state s).id ∧
      (v.state s).path = (w.state s).path ∧ (v.state s).name = (w.state s).name := by
  cases change with
  | allocate | scope => exact ⟨rfl, rfl, rfl, rfl⟩
  | define =>
    rw [state_define_of_hasState known]
    exact ⟨rfl, rfl, rfl, rfl⟩
  | state t changed =>
    rw [state_setState]
    split
    · rename_i here
      rw [← here.1]
      cases changed <;> exact ⟨rfl, rfl, rfl, rfl⟩
    · exact ⟨rfl, rfl, rfl, rfl⟩

/-- An operation defines a state under an id that was free, or leaves the number of states. -/
theorem defines_or_keeps (within : op.Within w) :
    (∃ new : State, new.id ∉ (w.scope new.scope).taken ∧
      new.id ∈ ((op.after w).scope new.scope).taken ∧
      (op.after w).states = w.states.push new ∧ (op.Unnamed → new.name = new.id)) ∨
      (op.after w).states.size = w.states.size := by
  cases op with
  | inquiry q => exact .inr (congrArg _ (asked_inquiry within).states)
  | edit e =>
    cases e with
    | allocate d id => exact .inr (congrArg Array.size (Build.states_allocate d id))
    | scope id parent => exact .inr (congrArg Array.size (Build.states_scope id parent))
    | state d id name common description =>
      cases allocated : (w.scope d).allocate id with
      | error fault =>
        right
        simp only [Operation.after, Edit.after, Build.after, Build.state_of_error allocated]
      | ok grant =>
        obtain ⟨granted, scope⟩ := grant
        obtain ⟨new, own, same, named, defined, -⟩ :=
          Build.state_of_ok allocated name common description
        obtain ⟨free, taken⟩ := Scope.taken_of_allocate allocated
        left
        subst own same
        refine ⟨new, free, ?_, congrArg Workspace.states defined, ?_⟩
        · change new.id ∈ (((Build.state _ _ _ _ _).after w).scope _).taken
          rw [defined, (sameIds_define _ _ _ _).taken, scope_setScope, if_pos ⟨rfl, within⟩, taken]
          exact List.mem_cons_self
        · intro unnamed
          rw [named, show (name.filter fun given => !given.isEmpty) = none from unnamed]
          rfl
    | rename | wire | stop | retry | handle | rule | otherwise | branches | iterator | next
    | finish => exact .inr (frame_edit rfl w).size

end Workspace

namespace Runs

variable {u w : Workspace} {ops : List Operation} {c : ScopeId} {s : StateId}

theorem obtained_due (runs : Runs u ops w) (counted : (u.scope c).Counted) :
    Scope.AllDue (u.scope c).taken (ops.filterMap (Operation.asks? c)) (u.obtained c ops) ∧
      (w.scope c).taken = (u.obtained c ops).reverse ++ (u.scope c).taken ∧
      (w.scope c).Counted := by
  induction runs with
  | nil w => exact ⟨.nil, rfl, counted⟩
  | @cons u w op ops within _ ih =>
    have allocates := Workspace.allocates_after within c
    rw [List.filterMap_cons, Workspace.obtained]
    generalize op.asks? c = asked, op.gets? c u = granted at allocates ⊢
    cases allocates with
    | idle same =>
      have rest := ih (same.counted counted)
      rw [same.taken] at rest
      exact rest
    | @grant id granted reserved ok same =>
      obtain ⟨given, -⟩ := Scope.allocate_eq_ok.mp ok
      obtain ⟨_, _, ok', due, taken, counted', -⟩ := Scope.allocate_spec counted given
      cases ok.symm.trans ok'
      obtain ⟨later, taken', counted''⟩ := ih (same.counted counted')
      rw [same.taken, taken] at later taken'
      refine ⟨.cons due later, ?_, counted''⟩
      rw [taken', Option.toList, List.singleton_append, List.reverse_cons, List.append_assoc]
      rfl

/-- A state stays where it was defined and keeps its id and its path, and its name unless it is
renamed. -/
theorem identity_kept (runs : Runs u ops w) (known : u.HasState s) :
    w.HasState s ∧ (w.state s).scope = (u.state s).scope ∧ (w.state s).id = (u.state s).id ∧
      (w.state s).path = (u.state s).path ∧
      ((∀ name, .edit (.rename s name) ∉ ops) → (w.state s).name = (u.state s).name) := by
  refine runs.keeps_of_change (P := fun v => v.HasState s ∧
    (v.state s).scope = (u.state s).scope ∧ (v.state s).id = (u.state s).id ∧
      (v.state s).path = (u.state s).path ∧
      ((∀ name, .edit (.rename s name) ∉ ops) → (v.state s).name = (u.state s).name)) ?_ ?_ ?_ ?_
  · rintro v v' change ⟨there, scope, id, path, name⟩
    obtain ⟨scope', id', path', name'⟩ := change.identity there
    exact ⟨change.hasState there, scope'.trans scope, id'.trans id, path'.trans path,
      fun never => name'.trans (name never)⟩
  · rintro v t name member ⟨there, scope, id, path, named⟩
    have same := v.rename_cases (P := fun before after => after.id = before.id ∧
      after.path = before.path) (fun _ => ⟨rfl, rfl⟩) (fun _ _ => ⟨rfl, rfl⟩) t s name
    refine ⟨Workspace.hasState_setState.mpr there, (v.scope_of_rename t s name).trans scope,
      same.1.trans id, same.2.trans path, fun never => ?_⟩
    have other : s ≠ t := by
      rintro rfl
      exact never name member
    rw [Workspace.state_rename_of_ne other]
    exact named never
  · rintro v v' states - held
    rw [Workspace.HasState, states, Workspace.state_of_states states]
    exact held
  · exact ⟨known, rfl, rfl, rfl, fun _ => rfl⟩

/-- The ids of the states are taken in their scopes, each by one state. -/
theorem issued (runs : Runs {} ops w) : w.Issued := by
  refine runs.keeps ?_ (by constructor <;> (intros; contradiction))
  intro v op _ within held
  have once : Runs v [op] (op.after v) := .cons within (.nil _)
  have old {s : StateId} (known : v.HasState s) :
      ((op.after v).state s).id ∈ ((op.after v).scope ((op.after v).state s).scope).taken := by
    obtain ⟨-, scope, id, -⟩ := once.identity_kept known
    rw [scope, id]
    exact (Workspace.allocates_after within _).taken_subset (held.taken known)
  have olds {s t : StateId} (known : v.HasState s) (known' : v.HasState t)
      (sameScope : ((op.after v).state s).scope = ((op.after v).state t).scope)
      (sameId : ((op.after v).state s).id = ((op.after v).state t).id) : s = t := by
    obtain ⟨-, scope, id, -⟩ := once.identity_kept known
    obtain ⟨-, scope', id', -⟩ := once.identity_kept known'
    exact held.unique known known' (scope.symm.trans (sameScope.trans scope'))
      (id.symm.trans (sameId.trans id'))
  rcases Workspace.defines_or_keeps within with ⟨new, free, taken, states, -⟩ | size
  · have last : (op.after v).state ⟨v.states.size⟩ = new := by
      simp [Workspace.state, states, Array.getD_eq_getD_getElem?]
    have known_or {s : StateId} (known : (op.after v).HasState s) :
        v.HasState s ∨ s = ⟨v.states.size⟩ := by
      rw [Workspace.HasState, states, Array.size_push] at known
      exact (Nat.lt_succ_iff_lt_or_eq.mp known).imp_right (congrArg StateId.mk)
    have apart {s : StateId} (known : v.HasState s)
        (sameScope : ((op.after v).state s).scope = new.scope) :
        ((op.after v).state s).id ≠ new.id := by
      intro sameId
      obtain ⟨-, scope, id, -⟩ := once.identity_kept known
      have member := held.taken known
      rw [← scope, sameScope, ← id, sameId] at member
      exact free member
    constructor
    case taken =>
      intro s known
      rcases known_or known with known | rfl
      · exact old known
      · rw [last]
        exact taken
    case unique =>
      intro s t known known' sameScope sameId
      rcases known_or known with known | rfl <;> rcases known_or known' with known' | rfl
      · exact olds known known' sameScope sameId
      · rw [last] at sameScope sameId
        exact absurd sameId (apart known sameScope)
      · rw [last] at sameScope sameId
        exact absurd sameId.symm (apart known' sameScope.symm)
      · rfl
  · have known_of {s : StateId} (known : (op.after v).HasState s) : v.HasState s := by
      rwa [Workspace.HasState, size] at known
    exact ⟨fun known => old (known_of known),
      fun known known' => olds (known_of known) (known_of known')⟩

/-- A state that is defined without a name of its own is named by its id until it is renamed. -/
theorem name_eq_id (runs : Runs u ops w) (unnamed : u.DefinesUnnamed s ops)
    (never : ∀ name, .edit (.rename s name) ∉ ops) :
    w.HasState s ∧ (w.state s).name = (w.state s).id := by
  induction runs with
  | nil => exact absurd unnamed id
  | @cons u w op ops within later ih =>
    have never' : ∀ name, .edit (.rename s name) ∉ ops :=
      fun name member => never name (List.mem_cons_of_mem _ member)
    rcases unnamed with ⟨rfl, there, unnamed⟩ | unnamed
    · obtain ⟨known, -, id, -, name⟩ := later.identity_kept there
      rcases Workspace.defines_or_keeps within with ⟨new, -, -, states, named⟩ | size
      · have last : (op.after u).state ⟨u.states.size⟩ = new := by
          simp [Workspace.state, states, Array.getD_eq_getD_getElem?]
        rw [last] at id name
        exact ⟨known, (name never').trans ((named unnamed).trans id.symm)⟩
      · rw [Workspace.HasState, size] at there
        exact absurd there (Nat.lt_irrefl _)
    · exact ih unnamed never'

/-- The ids that a scope hands out. Requests, be they for ids as such, for scopes or for states, get
the ids that are due to them, one after the other, all of them different. At any time a request with
an id succeeds: its search ends with the id that is due, which is also found by the search from the
least suffix. So states of one scope have different ids, and different names if none of them was
given one. -/
theorem ids_due (runs : Runs {} ops w) (c : ScopeId) :
    Scope.AllDue [] (ops.filterMap (Operation.asks? c)) (({} : Workspace).obtained c ops) ∧
      (({} : Workspace).obtained c ops).Nodup ∧
      (w.scope c).taken = (({} : Workspace).obtained c ops).reverse ∧
      (∀ id, id.isEmpty = false → ∃ granted new,
        (w.scope c).allocate id = .ok (granted, new) ∧ Scope.Due (w.scope c).taken id granted ∧
        Scope.Tries (w.scope c).taken id id ((w.scope c).counter id) granted (new.counter id) ∧
        ∃ other, Scope.allocate { w.scope c with counters := [] } id = .ok (granted, other)) ∧
      (∀ s t, w.HasState s → w.HasState t → (w.state s).scope = c → (w.state t).scope = c →
        s ≠ t → (w.state s).id ≠ (w.state t).id) ∧
      ∀ s t, Workspace.DefinesUnnamed s {} ops → Workspace.DefinesUnnamed t {} ops →
        (∀ name, .edit (.rename s name) ∉ ops ∧ .edit (.rename t name) ∉ ops) →
        (w.state s).scope = c → (w.state t).scope = c → s ≠ t →
        (w.state s).name ≠ (w.state t).name := by
  have counted : (({} : Workspace).scope c).Counted := by
    intro id
    refine ⟨Nat.le_refl 1, ?_⟩
    intro n from_two within
    have few : n ≤ 1 := within
    omega
  obtain ⟨due, taken, counted⟩ := runs.obtained_due counted
  have start : (({} : Workspace).scope c).taken = [] := rfl
  rw [start] at due taken
  have ids {s t : StateId} (known : w.HasState s) (known' : w.HasState t)
      (here : (w.state s).scope = c) (here' : (w.state t).scope = c) (different : s ≠ t) :
      (w.state s).id ≠ (w.state t).id :=
    fun same => different (runs.issued.unique known known' (here.trans here'.symm) same)
  refine ⟨due, due.nodup.1, by simpa using taken, ?_, fun s t => ids, ?_⟩
  · intro id given
    obtain ⟨granted, new, ok, due, -, -, tries, naive⟩ := Scope.allocate_spec counted given
    exact ⟨granted, new, ok, due, tries, naive⟩
  · intro s t unnamed unnamed' never here here' different
    obtain ⟨known, named⟩ := runs.name_eq_id unnamed fun name => (never name).1
    obtain ⟨known', named'⟩ := runs.name_eq_id unnamed' fun name => (never name).2
    rw [named, named']
    exact ids known known' here here' different

/-- Ids that look like suffixed ones, asked for by states and by a scope. -/
def stepping : List Operation :=
  [.edit (.scope "T" none), .edit (.allocate ⟨0⟩ "S_2"), .edit (.state ⟨0⟩ "S" none {} .succeed),
    .edit (.state ⟨0⟩ "S" none {} .succeed), .edit (.scope "S_2" (some ⟨0⟩))]

theorem stepping_due :
    ∃ w, Runs {} stepping w ∧
      stepping.filterMap (Operation.asks? ⟨0⟩) = ["S_2", "S", "S", "S_2"] ∧
      Scope.AllDue [] ["S_2", "S", "S", "S_2"] ["S_2", "S", "S_3", "S_2_2"] ∧
      (w.state ⟨0⟩).name ≠ (w.state ⟨1⟩).name := by
  have runs : Runs {} stepping _ := .of_allows (by decide)
  obtain ⟨due, -, -, -, -, apart⟩ := runs.ids_due ⟨0⟩
  have asked : stepping.filterMap (Operation.asks? ⟨0⟩) = ["S_2", "S", "S", "S_2"] := rfl
  have got : ({} : Workspace).obtained ⟨0⟩ stepping = ["S_2", "S", "S_3", "S_2_2"] := rfl
  rw [asked, got] at due
  refine ⟨_, runs, asked, due, apart ⟨0⟩ ⟨1⟩ ?_ ?_ ?_ rfl rfl (by decide)⟩
  · exact .inr (.inr (.inl ⟨rfl, by decide, rfl⟩))
  · exact .inr (.inr (.inr (.inl ⟨rfl, by decide, rfl⟩)))
  · simp [stepping]

end Runs
end Workflow
