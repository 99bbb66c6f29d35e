import Workflow.Proofs.Termination

/-!
The order of compilation. A walk keeps the states that it has still to visit in a list, into which
states come more than once. It comes to what visiting one state after the other by recursion comes
to, depth first and in the order of the transitions, and fails where that does. The induction is on
the states that are not registered; it carries any states pending behind those of the recursion.
-/

namespace Workflow.Workspace

/-- Visits a state and what can be reached from it. A state that is listed is not visited again; any
other is registered and validated and has its nested levels compiled before what it leads to is
visited in the order of its transitions. The recursion is as deep as there are states to visit. -/
def visit (w : Workspace) : (depth : Nat) → (label : String) → Registry × Members → StateId →
    Except Fault (Registry × Members)
  | 0, _, _, _ => .error .exhausted
  | depth + 1, label, (registry, found), s =>
    if w.lists found s then .ok (registry, found)
    else do
      let registry ← w.register label registry s
      (w.state s).validate
      let (registry, levels) ← compileLevels
        (fun label registry start => do
          let (registry, members) ← visit w depth label (registry, []) start
          w.resolveLevel label members
          return (registry, .node ⟨start, label, none⟩ members))
        registry ((w.state s).nestedGraphs label)
      (w.state s).successors.foldlM (visit w depth label)
        (registry, found ++ [(⟨(w.state s).name, s⟩, levels)])

/-- Compiles the level that starts at a state by recursion of a depth: the start is visited, then
the transitions of the states found are resolved in the order in which they were found. -/
def visitLevel (w : Workspace) (depth : Nat) (label : String) (registry : Registry)
    (start : StateId) : Except Fault (Registry × Level) := do
  let (registry, members) ← w.visit depth label (registry, []) start
  w.resolveLevel label members
  return (registry, .node ⟨start, label, none⟩ members)

variable {w : Workspace} {label : String} {registry : Registry} {found : Members}

theorem compileBy_eq_visitLevel {depth : Nat} {start : StateId}
    {find : String → Registry → Members → List StateId → Except Fault (Registry × Members)}
    (same : find label registry [] [start] =
      [start].foldlM (w.visit depth label) (registry, [])) :
    w.compileBy find label registry start = w.visitLevel depth label registry start := by
  rw [compileBy, same]
  simp [visitLevel]

theorem visit_of_not_lists {depth : Nat} {s : StateId} (unlisted : ¬ w.lists found s = true) :
    w.visit (depth + 1) label (registry, found) s = (do
      let registry ← w.register label registry s
      (w.state s).validate
      let (registry, levels) ←
        compileLevels (w.visitLevel depth) registry ((w.state s).nestedGraphs label)
      (w.state s).successors.foldlM (w.visit depth label)
        (registry, found ++ [(⟨(w.state s).name, s⟩, levels)])) := by
  rw [visit, if_neg unlisted]
  rfl

theorem visit_of_lists {depth : Nat} {s : StateId} (listed : w.lists found s = true) :
    w.visit (depth + 1) label (registry, found) s = .ok (registry, found) := by
  rw [visit, if_pos listed]

theorem foldlM_visit_dropWhile {depth : Nat} (pending : List StateId) :
    pending.foldlM (w.visit (depth + 1) label) (registry, found) =
      (pending.dropWhile (w.lists found)).foldlM (w.visit (depth + 1) label) (registry, found) := by
  induction pending with
  | nil => rfl
  | cons s pending ih =>
    rw [List.dropWhile_cons]
    split
    · rename_i listed
      rw [List.foldlM_cons, visit_of_lists listed, ← ih]
      rfl
    · rfl

theorem visit_grows {depth : Nat} {before after : Registry × Members} {s : StateId}
    (ok : w.visit depth label before s = .ok after) : ∃ more, after.2 = before.2 ++ more := by
  induction depth generalizing label before after s with
  | zero => cases ok
  | succ depth ih =>
    obtain ⟨registry, found⟩ := before
    have all {targets : List StateId} {before after : Registry × Members}
        (ok : targets.foldlM (w.visit depth label) before = .ok after) :
        ∃ more, after.2 = before.2 ++ more := by
      induction targets generalizing before with
      | nil =>
        cases ok
        exact ⟨[], (List.append_nil _).symm⟩
      | cons t targets rest =>
        rw [List.foldlM_cons, Outcome.bind_eq_ok] at ok
        obtain ⟨between, first, later⟩ := ok
        obtain ⟨more, grown⟩ := ih first
        obtain ⟨further, grown'⟩ := rest later
        exact ⟨more ++ further, by rw [grown', grown, List.append_assoc]⟩
    rw [visit] at ok
    split at ok
    · cases ok
      exact ⟨[], (List.append_nil _).symm⟩
    · simp only [Outcome.bind_eq_ok] at ok
      obtain ⟨-, -, -, -, ⟨explored, levels⟩, -, ok⟩ := ok
      obtain ⟨more, grown⟩ := all ok
      exact ⟨_ :: more, by rw [grown, List.append_assoc]; rfl⟩

/-- It makes no difference to pass over at once what would be passed over when it is visited. -/
theorem foldlM_visit_filter {depth : Nat} (targets : List StateId) :
    (targets.filter fun t => !w.lists found t).foldlM (w.visit (depth + 1) label)
        (registry, found) =
      targets.foldlM (w.visit (depth + 1) label) (registry, found) := by
  suffices ∀ (registry : Registry) (more : Members),
      (targets.filter fun t => !w.lists found t).foldlM (w.visit (depth + 1) label)
          (registry, found ++ more) =
        targets.foldlM (w.visit (depth + 1) label) (registry, found ++ more) by
    simpa using this registry []
  intro registry more
  induction targets generalizing registry more with
  | nil => rfl
  | cons t targets ih =>
    cases listed : w.lists found t with
    | true =>
      rw [List.filter_cons_of_neg (by simp [listed]), ih, List.foldlM_cons,
        visit_of_lists (lists_append listed more)]
      rfl
    | false =>
      rw [List.filter_cons_of_pos (by simp [listed]), List.foldlM_cons, List.foldlM_cons]
      cases visited : w.visit (depth + 1) label (registry, found ++ more) t with
      | error fault => rfl
      | ok after =>
        obtain ⟨registry, members⟩ := after
        obtain ⟨further, rfl : members = found ++ more ++ further⟩ := visit_grows visited
        rw [List.append_assoc]
        exact ih registry (more ++ further)

theorem compileLevels_congr
    {compile compile' : String → Registry → StateId → Except Fault (Registry × Level)}
    {graphs : List (String × StateId)}
    (grows : ∀ {label registry start registry' level},
      compile label registry start = .ok (registry', level) → ∃ more, registry' = registry ++ more)
    (same : ∀ label more start,
      compile label (registry ++ more) start = compile' label (registry ++ more) start) :
    compileLevels compile registry graphs = compileLevels compile' registry graphs := by
  induction graphs generalizing registry with
  | nil => rfl
  | cons graph graphs ih =>
    obtain ⟨label, start⟩ := graph
    have first := same label [] start
    rw [List.append_nil] at first
    rw [compileLevels, compileLevels, ← first]
    cases compiled : compile label registry start with
    | error fault => rfl
    | ok result =>
      obtain ⟨between, level⟩ := result
      obtain ⟨more, rfl⟩ := grows compiled
      have rest : compileLevels compile (registry ++ more) graphs =
          compileLevels compile' (registry ++ more) graphs := by
        refine ih fun label further start => ?_
        rw [List.append_assoc]
        exact same label (more ++ further) start
      simp only [bind, Except.bind, rest]

/-- A walk visits what is pending one after the other. -/
theorem walk_eq_foldlM_visit {steps depth : Nat} {pending : List StateId}
    (steps_enough : (w.unregistered registry).card < steps)
    (depth_enough : (w.unregistered registry).card < depth) :
    w.walk steps label registry found pending =
      pending.foldlM (w.visit depth label) (registry, found) := by
  induction steps generalizing depth label registry found pending with
  | zero => omega
  | succ steps ih =>
    obtain ⟨depth, rfl⟩ : ∃ d, depth = d + 1 := ⟨depth - 1, by omega⟩
    rw [walk, foldlM_visit_dropWhile]
    cases next : pending.dropWhile (w.lists found) with
    | nil => rfl
    | cons s rest =>
      have unlisted : ¬ w.lists found s = true := by
        simpa [next] using List.head?_dropWhile_not (w.lists found) pending
      rw [List.foldlM_cons, visit_of_not_lists unlisted]
      simp only [bind_assoc]
      cases registered : w.register label registry s with
      | error fault => rfl
      | ok entered =>
      cases complete : (w.state s).validate with
      | error fault => rfl
      | ok =>
      have fewer := card_unregistered_lt registered complete
      -- The depth is left open: what is pending here is visited with one step of it more than what
      -- comes under the state.
      have later {depth : Nat} (enough : (w.unregistered entered).card < depth) (label : String)
          (more : Registry) (found : Members) (pending : List StateId) :
          w.walk steps label (entered ++ more) found pending =
            pending.foldlM (w.visit depth label) (entered ++ more, found) := by
        have := w.card_unregistered_append_le entered more
        exact ih (by omega) (by omega)
      have nested : compileLevels (w.compileBy (w.walk steps)) entered
            ((w.state s).nestedGraphs label) =
          compileLevels (w.visitLevel depth) entered ((w.state s).nestedGraphs label) :=
        compileLevels_congr (fun ok => ⟨_, (compileBy_walk_ok ok).grown⟩) fun label more start =>
          compileBy_eq_visitLevel (later (by omega) label more [] [start])
      simp only [bind, Except.bind, nested]
      cases compiled : compileLevels (w.visitLevel depth) entered
          ((w.state s).nestedGraphs label) with
      | error fault => rfl
      | ok result =>
        obtain ⟨explored, levels⟩ := result
        obtain ⟨rfl, -⟩ := compileLevels_ok compileBy_walk_ok (nested.trans compiled)
        dsimp only
        rw [later (by omega : _ < depth + 1), List.foldlM_append, foldlM_visit_filter,
          ← later (by omega : _ < depth + 1), later (by omega : _ < depth)]
        rfl

/-- Compiling is the depth-first traversal in the order of the transitions, for any depth that the
states of the workspace do not use up: with the same members, registry and nested levels if it
succeeds, with the same fault if it does not. -/
theorem compileLevel_eq_visitLevel (w : Workspace) (label : String) (registry : Registry)
    (start : StateId) (extra : Nat) :
    w.compileLevel label registry start =
        w.visitLevel (w.states.size + 1 + extra) label registry start ∧
      w.compileLevel label registry start ≠ .error .exhausted := by
  have bound := w.card_unregistered_le registry
  exact ⟨compileBy_eq_visitLevel (walk_eq_foldlM_visit (by omega) (by omega)),
    compileLevel_ne_exhausted⟩

end Workflow.Workspace
