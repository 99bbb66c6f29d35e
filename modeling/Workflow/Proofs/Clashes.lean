import Workflow.Proofs.Acceptance
import Workflow.Proofs.Naming

/-!
Clashes of names. A graph is refused for a name only if two states have it or are listed under it by
a scope, and where it is accepted its states clash with none. In a history the lists are about the
names that the states kept: a state that was given a new name is still listed under its old one, so
that it is not found under the new one and goes on to clash under the old one.
-/

namespace Workflow
namespace Workspace

variable {w : Workspace} {label : String} {registry registry' : Registry}

/-- Whether two states clash over a name: both have it, or a scope lists both under it. -/
def Clash (w : Workspace) (name : String) (s t : StateId) : Prop :=
  s ≠ t ∧ w.HasState s ∧ w.HasState t ∧
    ((w.state s).name = name ∧ (w.state t).name = name ∨
      ∃ c, s ∈ (w.scope c).named name ∧ t ∈ (w.scope c).named name)

/-- Whether states clash over the name that a fault says is given twice. -/
def Justifies (w : Workspace) : Fault → Prop
  | .duplicateName name first second _ =>
    ∃ s t, w.Clash name s t ∧ (w.state s).path = first ∧ (w.state t).path = second
  | _ => True

/-- What is registered are states that there are, under the names that they have. -/
def Standing (w : Workspace) (registry : Registry) : Prop :=
  ∀ r ∈ registry, w.HasState r.state ∧ r.name = (w.state r.state).name

/-- Whether an outcome is as it should be: states that there are, or a fault that is justified. -/
def Proper {α : Type} (w : Workspace) : Except Fault (Registry × α) → Prop
  | .ok (registry, _) => w.Standing registry
  | .error fault => w.Justifies fault

theorem Standing.register {s : StateId} (standing : w.Standing registry) (known : w.HasState s)
    (ok : w.register label registry s = .ok registry') : w.Standing registry' := by
  obtain ⟨-, -, -, rfl⟩ := register_eq_ok.mp ok
  refine List.forall_mem_append.mpr ⟨standing, ?_⟩
  intro r member
  obtain rfl := List.mem_singleton.mp member
  exact ⟨known, rfl⟩

theorem justifies_register {s : StateId} {fault : Fault} (indexed : w.Indexed)
    (standing : w.Standing registry) (known : w.HasState s)
    (refused : w.register label registry s = .error fault) : w.Justifies fault := by
  simp only [register] at refused
  split at refused
  case h_1 => cases refused; trivial
  case h_2 r owned clash =>
    -- The state registered under the name is another one: this one is not registered yet.
    cases refused
    have member := List.mem_of_find?_eq_some clash
    have named : r.name = (w.state s).name := by simpa using List.find?_some clash
    have other : r.state ≠ s := by simpa using List.find?_eq_none.mp owned r member
    obtain ⟨there, name⟩ := standing r member
    exact ⟨r.state, s, ⟨other, there, known, .inl ⟨name.symm.trans named, rfl⟩⟩, rfl, rfl⟩
  case h_3 =>
    split at refused
    case h_1 first second rest listed =>
      cases refused
      have nodup := indexed.nodup (w.state s).scope (w.state s).name
      rw [listed] at nodup
      have other : first ≠ second := by
        rintro rfl
        exact (List.nodup_cons.mp nodup).1 List.mem_cons_self
      have one : first ∈ (w.scope (w.state s).scope).named (w.state s).name := by simp [listed]
      have two : second ∈ (w.scope (w.state s).scope).named (w.state s).name := by simp [listed]
      exact ⟨first, second, ⟨other, (indexed.listed one).1, (indexed.listed two).1,
        .inr ⟨_, one, two⟩⟩, rfl, rfl⟩
    case h_2 => cases refused

theorem justifies_validate {s : State} {fault : Fault} (refused : s.validate = .error fault) :
    w.Justifies fault := by
  cases State.refused_of_validate refused <;> trivial

theorem justifies_resolveLevel {members : Members} {fault : Fault}
    (refused : w.resolveLevel label members = .error fault) : w.Justifies fault := by
  obtain ⟨e, -, refused⟩ := Outcome.exists_of_forM_eq_error refused
  obtain ⟨t, -, refused⟩ := Outcome.exists_of_forM_eq_error refused
  dsimp only at refused
  split at refused
  · cases refused
  · cases refused
    trivial

theorem Proper.bind {α β : Type} {first : Except Fault (Registry × α)}
    {next : Registry × α → Except Fault (Registry × β)} (proper : w.Proper first)
    (rest : ∀ registry a, w.Standing registry → w.Proper (next (registry, a))) :
    w.Proper (first >>= next) := by
  cases first with
  | error fault => exact proper
  | ok result => exact rest result.1 result.2 proper

theorem proper_compileBy
    {find : String → Registry → Members → List StateId → Except Fault (Registry × Members)}
    {start : StateId} (found : w.Proper (find label registry [] [start])) :
    w.Proper (w.compileBy find label registry start) := by
  refine found.bind ?_
  intro registry' members standing
  dsimp only
  cases resolved : w.resolveLevel label members with
  | error fault => exact justifies_resolveLevel resolved
  | ok => exact standing

theorem proper_compileLevels
    {compile : String → Registry → StateId → Except Fault (Registry × Level)}
    {graphs : List (String × StateId)}
    (each : ∀ label registry start, w.Standing registry → w.HasState start →
      w.Proper (compile label registry start))
    (standing : w.Standing registry) (starts : ∀ graph ∈ graphs, w.HasState graph.2) :
    w.Proper (compileLevels compile registry graphs) := by
  induction graphs generalizing registry with
  | nil => exact standing
  | cons graph graphs ih =>
    obtain ⟨label, start⟩ := graph
    obtain ⟨first, rest⟩ := List.forall_mem_cons.mp starts
    refine (each label registry start standing first).bind ?_
    intro between level standing
    refine (ih standing rest).bind ?_
    intro registry' levels standing
    exact standing

/-- The walk of a level whose pending states there are registers states that there are, and is
refused for a name only where states clash. -/
theorem proper_walk (indexed : w.Indexed) (closed : w.Closed) {fuel : Nat} {found : Members}
    {pending : List StateId} (standing : w.Standing registry)
    (known : ∀ s ∈ pending, w.HasState s) :
    w.Proper (w.walk fuel label registry found pending) := by
  induction fuel generalizing label registry found pending with
  | zero => trivial
  | succ fuel ih =>
    rw [walk]
    cases next : pending.dropWhile (w.lists found) with
    | nil => exact standing
    | cons s rest =>
      have later : ∀ t ∈ s :: rest, w.HasState t := by
        intro t member
        rw [← next] at member
        exact known t ((List.dropWhile_sublist _).subset member)
      obtain ⟨here, later⟩ := List.forall_mem_cons.mp later
      dsimp only
      cases registered : w.register label registry s with
      | error fault => exact justifies_register indexed standing here registered
      | ok entered =>
      cases complete : (w.state s).validate with
      | error fault => exact justifies_validate complete
      | ok =>
      have entry : w.Standing entered := standing.register here registered
      have starts : ∀ graph ∈ (w.state s).nestedGraphs label, w.HasState graph.2 := by
        intro graph member
        apply closed s
        apply List.mem_append_right
        rw [← State.nestedGraphs_starts _ label]
        exact List.mem_map_of_mem member
      have inner : w.Proper (compileLevels (w.compileBy (w.walk fuel)) entered
          ((w.state s).nestedGraphs label)) := by
        refine proper_compileLevels ?_ entry starts
        intro label registry start standing first
        apply proper_compileBy
        exact ih standing (by simpa using first)
      refine inner.bind ?_
      intro explored levels standing
      refine ih standing (List.forall_mem_append.mpr ⟨?_, later⟩)
      intro t target
      exact closed s t (List.mem_append_left _ (List.mem_filter.mp target).1)

theorem justifies_compile (indexed : w.Indexed) (closed : w.Closed) {start : StateId}
    (known : w.HasState start) {fault : Fault} (refused : w.compile label start = .error fault) :
    w.Justifies fault := by
  have level : w.Proper (w.compileLevel label [] start) := by
    apply proper_compileBy
    exact proper_walk indexed closed (by simp [Standing]) (by simpa using known)
  rw [compile] at refused
  rcases Outcome.bind_eq_error.mp refused with refused | ⟨result, -, ⟨⟩⟩
  rw [refused] at level
  exact level

/-- Two states that a scope lists under a name that is accepted there are one. -/
theorem eq_of_single {c : ScopeId} {name : String} {s t : StateId}
    (single : ((w.scope c).named name).length ≤ 1) (one : s ∈ (w.scope c).named name)
    (two : t ∈ (w.scope c).named name) : s = t := by
  match listed : (w.scope c).named name with
  | [] => simp [listed] at one
  | [u] =>
    rw [listed, List.mem_singleton] at one two
    rw [one, two]
  | _ :: _ :: _ => simp [listed] at single

theorem Clash.name_eq {name : String} {s t : StateId} (indexed : w.Indexed)
    (clash : w.Clash name s t) : ∀ u ∈ [s, t], w.KeepsName u → (w.state u).name = name := by
  simp only [List.forall_mem_cons, List.not_mem_nil, false_implies, implies_true, and_true]
  rcases clash.2.2.2 with ⟨one, two⟩ | ⟨c, one, two⟩
  · exact ⟨fun _ => one, fun _ => two⟩
  · exact ⟨indexed.name_eq one, indexed.name_eq two⟩

end Workspace

namespace Build

theorem compiled_eq_error {w w' : Workspace} {g : GraphId} {fault : Fault} :
    compiled g w = .error fault w' ↔ w.compiled (w.graph g) = .error fault ∧ w = w' := by
  change ((lift (w.compiled (w.graph g)) >>= fun c =>
    set (w.setGraph g { w.graph g with compiled := some c }) >>= fun _ => pure c) : Build Compiled)
      w = .error fault w' ↔ _
  cases w.compiled (w.graph g) with
  | error other =>
    change EStateM.Result.error other w = .error fault w' ↔ _
    simp
  | ok c =>
    change EStateM.Result.ok c _ = .error fault w' ↔ _
    simp

end Build

namespace Runs

variable {w : Workspace} {ops : List Operation} {g : GraphId}

/-- Whether a name is given twice in a scope is judged by the names that states were defined with.
The states of a graph that compiles are named differently from each other, and from the states of
their scopes as far as names were kept; a graph that is refused for a name is refused for two states
that have it, again as far as they kept their names. States that were not renamed did. -/
theorem names_judged_as_defined (runs : Runs {} ops w) (known : w.HasGraph g)
    (fresh : (w.graph g).compiled = none) :
    (∀ c w', Build.compiled g w = .ok c w' → ∀ s t, w.Occurs (w.graph g).start s → w.HasState t →
      s ≠ t → (w.state t).scope = (w.state s).scope →
      w.Occurs (w.graph g).start t ∨ w.KeepsName s ∧ w.KeepsName t →
      (w.state t).name ≠ (w.state s).name) ∧
    (∀ name first second label w',
      Build.compiled g w = .error (.duplicateName name first second label) w' →
      ∃ s t, w.Clash name s t ∧ (w.state s).path = first ∧ (w.state t).path = second ∧
        ∀ u ∈ [s, t], w.KeepsName u → (w.state u).name = name) ∧
    ∀ s, w.HasState s → (∀ name, .edit (.rename s name) ∉ ops) → w.KeepsName s := by
  refine ⟨?_, ?_, fun s => runs.keepsName⟩
  · intro c w' ok s t occurs there different scope kept same
    obtain ⟨compiled, -⟩ := Build.compiled_eq_ok.mp ok
    rw [Workspace.compiled_of_fresh fresh] at compiled
    have good := Workspace.compile_wellFormed compiled
    rcases kept with occurs' | ⟨keeps, keeps'⟩
    · exact different (good.distinct occurs occurs' same.symm)
    · rw [Workspace.KeepsName, scope, same] at keeps'
      exact different (Workspace.eq_of_single (good.single occurs) keeps keeps')
  · intro name first second label w' refused
    obtain ⟨refused, -⟩ := Build.compiled_eq_error.mp refused
    rw [Workspace.compiled_of_fresh fresh] at refused
    have start := runs.hasState_start known
    obtain ⟨s, t, clash, one, two⟩ :=
      Workspace.justifies_compile runs.indexed runs.closed start refused
    exact ⟨s, t, clash, one, two, clash.name_eq runs.indexed⟩

/-- Two states are defined under a name, and the one that is not in the graph gets another. -/
def amicable : List Operation :=
  [.edit (.scope "T" none), .edit (.state ⟨0⟩ "A" (some "Same") {} (.pass {})), .edit (.stop ⟨0⟩),
    .edit (.state ⟨0⟩ "B" (some "Same") {} (.pass {})), .edit (.rename ⟨1⟩ "Other"),
    .inquiry (.graph (some ⟨0⟩) "" .null)]

/-- Two states that are defined under a name clash over it also after one of them got another. -/
theorem spurious_clash_judged :
    ∃ w, Runs {} amicable w ∧ w.HasGraph ⟨0⟩ ∧ (w.graph ⟨0⟩).compiled = none ∧
      ∃ label w', Build.compiled ⟨0⟩ w = .error (.duplicateName "Same" "T/A" "T/B" label) w' ∧
        ∃ s t, w.Clash "Same" s t ∧ (w.state s).path = "T/A" ∧ (w.state t).path = "T/B" ∧
          ∀ u ∈ [s, t], w.KeepsName u → (w.state u).name = "Same" := by
  have runs : Runs {} amicable _ := .of_allows (by decide)
  have refused : Build.compiled ⟨0⟩ (Workspace.run {} amicable) =
      .error (.duplicateName "Same" "T/A" "T/B" _) _ := rfl
  obtain ⟨-, judged, -⟩ := names_judged_as_defined runs (g := ⟨0⟩) (by decide) rfl
  exact ⟨_, runs, by decide, rfl, _, _, refused, judged _ _ _ _ _ refused⟩

/-- A renaming is not noticed: a state that is given the name of another one is overlooked, and one
that had it still clashes. -/
theorem rename_unnoticed :
    let overlooked : List Operation :=
      [.edit (.scope "T" none), .edit (.state ⟨0⟩ "A" none {} (.pass {})), .edit (.stop ⟨0⟩),
        .edit (.state ⟨0⟩ "B" none {} (.pass {})), .edit (.rename ⟨1⟩ "A"),
        .inquiry (.graph (some ⟨0⟩) "" .null)]
    (∃ w c w', Runs {} overlooked w ∧ (w.graph ⟨0⟩).compiled = none ∧
      Build.compiled ⟨0⟩ w = .ok c w' ∧ w.Occurs (w.graph ⟨0⟩).start ⟨0⟩ ∧ w.HasState ⟨1⟩ ∧
      (w.state ⟨1⟩).scope = (w.state ⟨0⟩).scope ∧ (w.state ⟨1⟩).name = (w.state ⟨0⟩).name) ∧
    ∃ w label w', Runs {} amicable w ∧ (w.graph ⟨0⟩).compiled = none ∧
      Build.compiled ⟨0⟩ w = .error (.duplicateName "Same" "T/A" "T/B" label) w' ∧
      ∀ s, w.HasState s → (w.state s).name = "Same" → s = ⟨0⟩ := by
  intro overlooked
  constructor
  · have runs : Runs {} overlooked _ := .of_allows (by decide)
    have first : Workspace.Unrolls (Workspace.run {} overlooked) ⟨0⟩ [] ⟨0⟩ := .top
    exact ⟨_, _, _, runs, rfl, rfl, ⟨[], ⟨0⟩, first, .refl⟩, by decide, rfl, rfl⟩
  · have runs : Runs {} amicable _ := .of_allows (by decide)
    refine ⟨_, _, _, runs, rfl, rfl, ?_⟩
    rintro ⟨i⟩ known named
    match i, known with
    | 0, _ => rfl
    | 1, _ => exact absurd named (by decide)

end Runs
end Workflow
