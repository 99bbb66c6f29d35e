import Workflow.Proofs.DepthFirst
import Workflow.Proofs.Extent
import Workflow.Proofs.Locality

/-!
Additions. A workspace in which there are states more than before answers what is asked of the
graphs that there were as before, be it with the same fault, as long as no scope lists one of the
new states under the name of a state of the graph. Nothing is read of the new states then: compiling
and rendering go from states of the graph to what these refer to.
-/

namespace Workflow

namespace Outcome

variable {ε α β : Type} {f g : α → Except ε β} {items : List α}

theorem mapM_congr (same : ∀ a ∈ items, f a = g a) : items.mapM f = items.mapM g := by
  induction items with
  | nil => rfl
  | cons a items ih =>
    obtain ⟨first, rest⟩ := List.forall_mem_cons.mp same
    rw [List.mapM_cons, List.mapM_cons, first, ih rest]

theorem forM_congr {f g : α → Except ε Unit} (same : ∀ a ∈ items, f a = g a) :
    items.forM f = items.forM g := by
  induction items with
  | nil => rfl
  | cons a items ih =>
    obtain ⟨first, rest⟩ := List.forall_mem_cons.mp same
    rw [List.forM, List.forM, first, ih rest]

end Outcome

theorem Nested.mapExcept_congr {ε ι κ α β : Type} {f f' : ι → κ} {g g' : α → Except ε β}
    {t : Nested ι α}
    (same : ∀ s ∈ t.levels, f s.info = f' s.info ∧ ∀ e ∈ s.entries, g e.1 = g' e.1) :
    t.mapExcept f g = t.mapExcept f' g' := by
  induction t using Nested.induct with
  | step i es ih =>
    obtain ⟨⟨top, entries⟩, nested⟩ := Nested.forall_mem_levels_node.mp same
    have top : f i = f' i := top
    rw [Nested.mapExcept_node, Nested.mapExcept_node, top]
    congr 1
    apply Outcome.mapM_congr
    intro e entry
    have inner : e.2.mapM (mapExcept f g) = e.2.mapM (mapExcept f' g') :=
      Outcome.mapM_congr fun t member => ih e entry t member (nested e entry t member)
    rw [entries e entry, inner]

namespace Workspace

variable {v w : Workspace} {P : StateId → Prop} {label : String} {registry : Registry}
  {found : Members}

/-- Whether another workspace has all states of this one as they are, and the same graphs. -/
structure Extends (w v : Workspace) : Prop where
  state : ∀ s, w.HasState s → v.state s = w.state s
  size : w.states.size ≤ v.states.size
  graphs : v.graphs = w.graphs

theorem Extends.graph (larger : w.Extends v) (g : GraphId) : v.graph g = w.graph g := by
  rw [Workspace.graph, Workspace.graph, larger.graphs]

/-- Whether states that lead to each other only are judged alike in two workspaces: either the same
states are listed under their names, or in both so few that none of them clashes. -/
structure Judges (w v : Workspace) (P : StateId → Prop) : Prop where
  known : ∀ s, P s → w.HasState s
  closed : ∀ s, P s → ∀ t ∈ (w.state s).references, P t
  listed : ∀ s, P s → v.namesakes s = w.namesakes s ∨
    (w.namesakes s).length ≤ 1 ∧ (v.namesakes s).length ≤ 1

/-- Whether two computations come to the same, with a registry of states of a kind and a result that
has a property. -/
structure Follows {α : Type} (P : StateId → Prop) (holds : α → Prop)
    (one two : Except Fault (Registry × α)) : Prop where
  same : two = one
  inside : ∀ registry a, one = .ok (registry, a) → (∀ r ∈ registry, P r.state) ∧ holds a

theorem Follows.bind {α β : Type} {holds : α → Prop} {holds' : β → Prop}
    {one two : Except Fault (Registry × α)}
    {next next' : Registry × α → Except Fault (Registry × β)}
    (follows : Follows P holds one two)
    (rest : ∀ registry a, (∀ r ∈ registry, P r.state) → holds a →
      Follows P holds' (next (registry, a)) (next' (registry, a))) :
    Follows P holds' (one >>= next) (two >>= next') := by
  obtain ⟨rfl, inside⟩ := follows
  cases outcome : two with
  | error fault => exact ⟨rfl, fun _ _ ok => by cases ok⟩
  | ok result =>
    obtain ⟨registry, held⟩ := inside result.1 result.2 outcome
    exact rest result.1 result.2 registry held

/-- The steps that a walk may take make no difference if they are more than the states left. -/
theorem compileBy_walk_eq {steps steps' : Nat} {start : StateId}
    (enough : (w.unregistered registry).card < steps)
    (enough' : (w.unregistered registry).card < steps') :
    w.compileBy (w.walk steps) label registry start =
      w.compileBy (w.walk steps') label registry start :=
  (compileBy_eq_visitLevel (walk_eq_foldlM_visit enough enough)).trans
    (compileBy_eq_visitLevel (walk_eq_foldlM_visit enough' enough)).symm

section Judged

variable (indexed : w.Indexed) (larger : w.Extends v) (judges : w.Judges v P)
include larger judges

theorem Judges.nameOf_eq {s : StateId} (here : P s) {t : Field × Target}
    (leaves : t ∈ (w.state s).outgoing) : v.nameOf t.2 = w.nameOf t.2 := by
  cases target : t.2 with
  | name => rfl
  | state u =>
    have leads : u ∈ (w.state s).successors :=
      List.mem_filterMap.mpr ⟨t, leaves, by rw [target]; rfl⟩
    have there := judges.closed s here u (List.mem_append_left _ leads)
    rw [nameOf, nameOf, larger.state u (judges.known u there)]

theorem Judges.resolveLevel_eq {members : Members} (inside : ∀ e ∈ members, P e.1.state) :
    v.resolveLevel label members = w.resolveLevel label members := by
  apply Outcome.forM_congr
  intro e entry
  have here := inside e entry
  rw [larger.state _ (judges.known _ here)]
  apply Outcome.forM_congr
  rintro ⟨field, target⟩ leaves
  have same : v.nameOf target = w.nameOf target := judges.nameOf_eq larger here leaves
  simp only [same]

theorem Judges.lists_eq {s : StateId} (here : P s) : v.lists found s = w.lists found s := by
  rw [lists, lists, larger.state s (judges.known s here)]

theorem Judges.dropWhile_eq {pending : List StateId} (ahead : ∀ s ∈ pending, P s) :
    pending.dropWhile (v.lists found) = pending.dropWhile (w.lists found) := by
  induction pending with
  | nil => rfl
  | cons s pending ih =>
    obtain ⟨here, later⟩ := List.forall_mem_cons.mp ahead
    rw [List.dropWhile_cons, List.dropWhile_cons, judges.lists_eq larger here, ih later]

theorem Judges.follows_compileBy
    {find find' : String → Registry → Members → List StateId → Except Fault (Registry × Members)}
    {start : StateId} (found : Follows P (fun members : Members => ∀ e ∈ members, P e.1.state)
      (find label registry [] [start]) (find' label registry [] [start])) :
    Follows P (fun _ => True) (w.compileBy find label registry start)
      (v.compileBy find' label registry start) := by
  refine found.bind ?_
  intro registry members registered inside
  dsimp only
  rw [judges.resolveLevel_eq larger inside]
  cases w.resolveLevel label members with
  | error fault => exact ⟨rfl, fun _ _ ok => by cases ok⟩
  | ok =>
    refine ⟨rfl, ?_⟩
    rintro _ _ ⟨⟩
    exact ⟨registered, trivial⟩

omit larger judges in
theorem follows_compileLevels
    {compile compile' : String → Registry → StateId → Except Fault (Registry × Level)}
    {graphs : List (String × StateId)}
    (each : ∀ label registry start, (∀ r ∈ registry, P r.state) → P start →
      Follows P (fun _ => True) (compile label registry start) (compile' label registry start))
    (registered : ∀ r ∈ registry, P r.state) (starts : ∀ graph ∈ graphs, P graph.2) :
    Follows P (fun _ => True) (compileLevels compile registry graphs)
      (compileLevels compile' registry graphs) := by
  induction graphs generalizing registry with
  | nil =>
    refine ⟨rfl, ?_⟩
    rintro _ _ ⟨⟩
    exact ⟨registered, trivial⟩
  | cons graph graphs ih =>
    obtain ⟨label, start⟩ := graph
    obtain ⟨first, rest⟩ := List.forall_mem_cons.mp starts
    refine (each label registry start registered first).bind ?_
    intro between level registered _
    refine (ih registered rest).bind ?_
    intro registry levels registered _
    refine ⟨rfl, ?_⟩
    rintro _ _ ⟨⟩
    exact ⟨registered, trivial⟩

include indexed

theorem Judges.register_eq {s : StateId} (here : P s) (inside : ∀ r ∈ registry, P r.state) :
    v.register label registry s = w.register label registry s := by
  have kept : v.state s = w.state s := larger.state s (judges.known s here)
  simp only [register, kept]
  cases registry.find? (·.state = s) with
  | some owned => rfl
  | none =>
    cases clash : registry.find? (·.name = (w.state s).name) with
    | some r =>
      have there := judges.known _ (inside r (List.mem_of_find?_eq_some clash))
      simp only [larger.state r.state there]
    | none =>
      have listed := judges.listed s here
      simp only [namesakes, kept] at listed
      rcases listed with same | ⟨few, few'⟩
      · rw [same]
        rcases known : (w.scope (w.state s).scope).named (w.state s).name with
          _ | ⟨first, _ | ⟨second, rest⟩⟩
        · rfl
        · rfl
        · have one : first ∈ (w.scope (w.state s).scope).named (w.state s).name := by simp [known]
          have two : second ∈ (w.scope (w.state s).scope).named (w.state s).name := by simp [known]
          simp only [larger.state first (indexed.listed one).1,
            larger.state second (indexed.listed two).1]
      · have single {names : List StateId} (few : names.length ≤ 1) :
            names = [] ∨ ∃ t, names = [t] := by
          rcases names with _ | ⟨t, _ | ⟨u, rest⟩⟩
          · exact .inl rfl
          · exact .inr ⟨t, rfl⟩
          · simp at few
        rcases single few with same | ⟨t, same⟩ <;> rcases single few' with same' | ⟨t', same'⟩ <;>
          simp only [same, same']

/-- A walk through states that are judged alike is the same walk, and finds nothing else. -/
theorem Judges.follows_walk {fuel : Nat} {pending : List StateId}
    (registered : ∀ r ∈ registry, P r.state) (before : ∀ e ∈ found, P e.1.state)
    (ahead : ∀ s ∈ pending, P s) :
    Follows P (fun members : Members => ∀ e ∈ members, P e.1.state)
      (w.walk fuel label registry found pending) (v.walk fuel label registry found pending) := by
  induction fuel generalizing label registry found pending with
  | zero => exact ⟨rfl, fun _ _ ok => by cases ok⟩
  | succ fuel ih =>
    rw [walk, walk, judges.dropWhile_eq larger ahead]
    cases next : pending.dropWhile (w.lists found) with
    | nil =>
      refine ⟨rfl, ?_⟩
      rintro _ _ ⟨⟩
      exact ⟨registered, before⟩
    | cons s rest =>
      have later : ∀ t ∈ s :: rest, P t := by
        intro t member
        rw [← next] at member
        exact ahead t ((List.dropWhile_sublist _).subset member)
      obtain ⟨here, later⟩ := List.forall_mem_cons.mp later
      have kept : v.state s = w.state s := larger.state s (judges.known s here)
      have refers := judges.closed s here
      simp only [kept, judges.register_eq indexed larger here registered]
      cases entry : w.register label registry s with
      | error fault => exact ⟨rfl, fun _ _ ok => by cases ok⟩
      | ok entered =>
      cases (w.state s).validate with
      | error fault => exact ⟨rfl, fun _ _ ok => by cases ok⟩
      | ok =>
      have registered : ∀ r ∈ entered, P r.state := by
        obtain ⟨-, -, -, rfl⟩ := register_eq_ok.mp entry
        exact List.forall_mem_append.mpr ⟨registered, by simpa using here⟩
      have starts : ∀ graph ∈ (w.state s).nestedGraphs label, P graph.2 := by
        intro graph member
        apply refers
        apply List.mem_append_right
        rw [← State.nestedGraphs_starts _ label]
        exact List.mem_map_of_mem member
      have each (label : String) (registry : Registry) (start : StateId)
          (registered : ∀ r ∈ registry, P r.state) (first : P start) :
          Follows P (fun _ => True) (w.compileBy (w.walk fuel) label registry start)
            (v.compileBy (v.walk fuel) label registry start) :=
        judges.follows_compileBy larger
          (ih registered (by simp) (List.forall_mem_singleton.mpr first))
      refine (follows_compileLevels each registered starts).bind ?_
      intro explored levels registered _
      have inside : ∀ e ∈ found ++ [(⟨(w.state s).name, s⟩, levels)], P e.1.state :=
        List.forall_mem_append.mpr ⟨before, by simpa using here⟩
      have targets (t : StateId) (leads : t ∈ (w.state s).successors) : P t :=
        refers t (List.mem_append_left _ leads)
      have offered : ((w.state s).successors.filter fun t =>
            !v.lists (found ++ [(⟨(w.state s).name, s⟩, levels)]) t) =
          (w.state s).successors.filter fun t =>
            !w.lists (found ++ [(⟨(w.state s).name, s⟩, levels)]) t :=
        List.filter_congr fun t leads => by rw [judges.lists_eq larger (targets t leads)]
      dsimp only
      rw [offered]
      refine ih registered inside (List.forall_mem_append.mpr ⟨?_, later⟩)
      exact fun t target => targets t (List.mem_filter.mp target).1

/-- Graphs of states that are judged alike are compiled to the same, or refused for the same. -/
theorem Judges.compile_eq {start : StateId} (first : P start) :
    v.compile label start = w.compile label start := by
  have walked (fuel : Nat) :
      Follows P _ (w.walk fuel label [] [] [start]) (v.walk fuel label [] [] [start]) :=
    judges.follows_walk indexed larger (by simp) (by simp) (List.forall_mem_singleton.mpr first)
  have steps : w.compileBy (w.walk (v.states.size + 1)) label [] start =
      w.compileLevel label [] start := by
    have bound := w.card_unregistered_le []
    have size := larger.size
    exact compileBy_walk_eq (by omega) (by omega)
  have level : v.compileLevel label [] start = w.compileLevel label [] start :=
    (judges.follows_compileBy larger (walked _)).same.trans steps
  rw [compile, compile, level]

end Judged

section Rendered

variable (larger : w.Extends v) (closed : w.Closed)
include larger closed

theorem Extends.nameOf_eq {s : StateId} {target : Target}
    (refers : ∀ t, target = .state t → t ∈ (w.state s).references) :
    v.nameOf target = w.nameOf target := by
  cases target with
  | name => rfl
  | state t => rw [nameOf, nameOf, larger.state t (closed s t (refers t rfl))]

theorem Extends.entry_eq (orderly : ∀ s, (w.state s).Orderly) {m : Member}
    (known : w.HasState m.state) : v.entry m = w.entry m := by
  have kept := larger.state m.state known
  have content : v.content? (w.state m.state) = w.content? (w.state m.state) := by
    rw [content?, content?]
    cases kind : (w.state m.state).kind with
    | choice rules tails =>
      refine congrArg (some ∘ Content.choice) (List.map_congr_left fun rule member => ?_)
      have listed : rule ∈ (w.state m.state).rules := by rwa [State.rules, kind]
      rw [larger.nameOf_eq closed fun t same =>
        State.mem_references.mpr (.inr (.inl ⟨rule, listed, same⟩))]
    | _ => rfl
  have next : (w.state m.state).onward.map v.nameOf = (w.state m.state).onward.map w.nameOf := by
    cases onward : (w.state m.state).onward with
    | none => rfl
    | some target =>
      refine congrArg some (larger.nameOf_eq (s := m.state) closed fun t same => ?_)
      exact State.mem_references.mpr (.inl (onward.trans (congrArg some same)))
  have catches : ((w.state m.state).catches.map fun c : Catch Target =>
        (⟨c.errors, v.nameOf c.target, c.resultPath⟩ : Catch String)) =
      (w.state m.state).catches.map fun c => ⟨c.errors, w.nameOf c.target, c.resultPath⟩ := by
    refine List.map_congr_left fun c member => ?_
    have failing := (orderly m.state).failing (.inr (List.ne_nil_of_mem member))
    have other : (w.state m.state).type? ≠ some .choice := by
      rcases failing with type | type | type <;> rw [type] <;> simp
    rw [larger.nameOf_eq closed fun t same =>
      State.mem_references.mpr (.inr (.inr (.inl ⟨other, c, member, same⟩)))]
  simp only [entry, kept, content, next, catches]

theorem Extends.document_eq (orderly : ∀ s, (w.state s).Orderly) {level : Level}
    (known : ∀ l ∈ level.levels, w.HasState l.info.start ∧ ∀ e ∈ l.entries, w.HasState e.1.state) :
    v.document level = w.document level := by
  apply Nested.mapExcept_congr
  intro l within
  obtain ⟨start, entries⟩ := known l within
  refine ⟨?_, fun e entry => larger.entry_eq closed orderly (entries e entry)⟩
  rw [heading, heading, larger.state _ start]

end Rendered

end Workspace

namespace Runs

variable {v w : Workspace} {ops : List Operation} {ref : GraphRef} {c : Compiled}

/-- What a graph is compiled to consists of states that there are. -/
theorem known_of_compiled (runs : Runs {} ops w) (known : w.HasGraph ref.root)
    (compiled : w.compiled (w.graph ref.root) = .ok c) :
    ∀ l ∈ ((w.graph ref.root).level c).levels,
      w.HasState l.info.start ∧ ∀ e ∈ l.entries, w.HasState e.1.state := by
  intro l within
  obtain ⟨before, later, u, c', -, -, last, ok, same, -⟩ := runs.compiles known compiled
  obtain ⟨-, -, sound⟩ := Workspace.compile_ok ok none
  obtain ⟨l', within', same⟩ := Level.exists_untimed same within
  obtain ⟨start, states, -⟩ := Level.untimed_eq same
  have sound := sound l' within'
  have there {s : StateId} (member : s ∈ Level.states l'.entries) : w.HasState s := by
    obtain ⟨e, entry, rfl⟩ := Level.mem_states.mp member
    have complete := (sound.explored e entry).complete
    exact last.keeps (fun _ within => Workspace.hasState_after within)
      (Workspace.index_lt_of_complete complete)
  refine ⟨start ▸ there sound.start, fun e entry => there ?_⟩
  rw [← states]
  exact Level.mem_states.mpr ⟨e, entry, rfl⟩

/-- A graph that is compiled to the same answers whatever it is asked with the same. -/
theorem outcome_eq_of_extends (runs : Runs {} ops w) (larger : w.Extends v)
    (known : w.HasGraph ref.root)
    (same : v.compiled (w.graph ref.root) = w.compiled (w.graph ref.root)) (q : Question) :
    q.outcome ref v = q.outcome ref w := by
  rw [Build.outcome_eq, Build.outcome_eq, larger.graph, same]
  cases compiled : w.compiled (w.graph ref.root) with
  | error fault => rfl
  | ok c =>
    have levels := runs.known_of_compiled known compiled
    change q.read v _ _ c = q.read w _ _ c
    cases q with
    | level | allStates | subgraphs => rfl
    | document =>
      have part : (Level.at? ref.path ((w.graph ref.root).level c)).getD
          ((w.graph ref.root).level c) ∈ ((w.graph ref.root).level c).levels :=
        Build.mem_levels_of_level rfl
      have document := larger.document_eq runs.closed runs.orderly fun l inside =>
        levels l (Nested.mem_levels_trans inside part)
      simp only [Question.read, document]
    | statements =>
      have states : ∀ s ∈ c.registry.map (·.state), v.state s = w.state s := by
        intro s member
        rw [(runs.whole_of_compiled known compiled).listed] at member
        obtain ⟨m, inside, rfl⟩ := List.mem_map.mp member
        obtain ⟨l, within, e, entry, rfl⟩ := Nested.exists_level_of_mem_preorder inside
        exact larger.state _ ((levels l within).2 e entry)
      have needed : (c.registry.map (·.state)).flatMap (fun s => (v.state s).statements) =
          (c.registry.map (·.state)).flatMap fun s => (w.state s).statements :=
        List.flatMap_congr fun s member => by rw [states s member]
      simp only [Question.read, needed]

end Runs
end Workflow
