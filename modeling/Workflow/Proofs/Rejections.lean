import Workflow.Proofs.Additions
import Workflow.Proofs.Unbound

/-!
Rejections. A definition that is refused for its id leaves everything as it was: a history is the
same without it. Not so a task that is refused for its resource. It has its id and its place among
the states of its scope by then, and stays there unbound. Whoever repeats the definition gets
another id, and a graph that has a state of that scope and name clashes with what is left. No graph
ever compiles with an unbound task, and all else is answered as if it had not been tried.
-/

namespace Workflow

namespace Operation

/-- Whether an operation is not a definition that is refused for its id. -/
def isGranted : Operation → Bool
  | edit (.scope id _) => !id.isEmpty && '/' ∉ id.toList
  | edit (.state _ id _ _ _) => !id.isEmpty
  | _ => true

/-- Whether an operation succeeds wherever it starts if it is a definition. -/
def Accepted : Operation → Prop
  | edit (.scope id parent) => ∀ w, ∃ c v, Build.scope id parent w = .ok c v
  | edit (.state d id name common description) =>
    ∀ w, ∃ s v, Build.state d id name common description w = .ok s v
  | _ => True

end Operation

namespace Build

open Workspace

variable {v w : Workspace} {d : ScopeId} {id granted : String} {scope : Scope} {fault : Fault}

theorem scope_eq_error {parent : Option ScopeId}
    (refused : Build.scope id parent w = .error fault v) :
    ¬ (id.isEmpty = false ∧ '/' ∉ id.toList) ∧ v = w := by
  by_cases legal : id.isEmpty = false ∧ '/' ∉ id.toList
  · cases parent with
    | none =>
      rw [scope_of_legal legal] at refused
      cases refused
    | some d =>
      obtain ⟨granted, scope, ok⟩ := (w.scope d).exists_allocate legal.1
      obtain ⟨new, -, -, -, made, -⟩ := scope_of_ok legal ok
      rw [made] at refused
      cases refused
  · obtain ⟨other, same⟩ := scope_of_illegal (w := w) legal parent
    rw [same] at refused
    cases refused
    exact ⟨legal, rfl⟩

/-- What a state is called that is defined with an id that is granted, and where it is. -/
theorem state_of_bound (ok : (w.scope d).allocate id = .ok (granted, scope))
    (name : Option String) (common : CommonFields) {description : Description}
    (bound : description.lacksResource = false) :
    ∃ s w', state d id name common description w = .ok s w' ∧ (w'.state s).id = granted ∧
      (w'.state s).path = (w.scope d).childPath granted ∧
      (w'.state s).name = (name.filter fun given => !given.isEmpty).getD granted := by
  obtain ⟨new, -, same, named, -, accepted, -, path, -⟩ := state_of_ok ok name common description
  refine ⟨_, _, accepted fun typeName fields task => ?_, ?_⟩
  · rw [task] at bound
    cases bound
  · have last : ((w.setScope d scope).define d new).state ⟨w.states.size⟩ = new :=
      (state_define ..).trans (if_pos rfl)
    rw [last, path, childPath_setScope ok]
    exact ⟨same, rfl, named⟩

/-- A definition that is refused is so for its id, or it is one of a task without a resource. -/
theorem state_eq_error {name : Option String} {common : CommonFields} {description : Description}
    (refused : state d id name common description w = .error fault v) :
    id.isEmpty = true ∧ v = w ∨ id.isEmpty = false ∧
      ∃ typeName fields, description = .task (.error typeName) fields ∧
        fault = .notAResource typeName := by
  cases allocated : (w.scope d).allocate id with
  | error other =>
    rw [state_of_error allocated] at refused
    cases refused
    exact .inl ⟨allocate_eq_error allocated, rfl⟩
  | ok grant =>
    obtain ⟨granted, scope⟩ := grant
    obtain ⟨given, -⟩ := Scope.allocate_eq_ok.mp allocated
    obtain ⟨new, -, -, -, -, accepted, -⟩ := state_of_ok allocated name common description
    by_cases task : ∃ typeName fields, description = .task (.error typeName) fields
    · obtain ⟨typeName, fields, rfl⟩ := task
      rw [state_of_unbound allocated] at refused
      cases refused
      exact .inr ⟨given, typeName, fields, rfl, rfl⟩
    · rw [accepted fun typeName fields same => task ⟨typeName, fields, same⟩] at refused
      cases refused

end Build

namespace Workspace

variable {v w : Workspace} {d : ScopeId} {id : String} {name : Option String}

/-- What the definition of a task leaves that is refused for its resource: an unbound task with the
id that was granted, which no graph ever compiles with. -/
structure Leftover (w v : Workspace) (d : ScopeId) (id : String) (name : Option String)
    (common : CommonFields) : Prop where
  left : ∃ granted scope, (w.scope d).allocate id = .ok (granted, scope) ∧
    v = (w.setScope d scope).define d (w.unboundTask d granted name common)
  barred : ∀ more u, Runs v more u → ∀ label start, u.Occurs start ⟨w.states.size⟩ →
    ∃ fault, u.compile label start = .error fault
  state : ∀ s, w.HasState s → v.state s = w.state s
  scope : ∀ c, c ≠ d → v.scope c = w.scope c
  again : ∀ common description, description.lacksResource = false → ∃ s t w' v',
    Build.state d id name common description w = .ok s w' ∧
      Build.state d id name common description v = .ok t v' ∧
      (v'.state t).id ≠ (w'.state s).id ∧ (v'.state t).path ≠ (w'.state s).path ∧
      ((v'.state t).name = (w'.state s).name ↔ ∃ given ∈ name, given.isEmpty = false)
  answers : ∀ ref : GraphRef, w.HasGraph ref.root →
    ((w.graph ref.root).compiled ≠ none ∨ ∀ s, w.Occurs (w.graph ref.root).start s →
      (w.state s).scope = d → w.nameGiven? d id name = some (w.state s).name →
      w.namesakes s = []) →
    ∀ q : Question, q.outcome ref v = q.outcome ref w
  clash : ∀ ref : GraphRef, w.HasGraph ref.root → (w.graph ref.root).compiled = none →
    ∀ s, w.Occurs (w.graph ref.root).start s → (w.state s).scope = d →
      w.nameGiven? d id name = some (w.state s).name → w.namesakes s ≠ [] →
      ∀ q : Question, ∃ fault, q.outcome ref v = .error fault

theorem Extends.reaches (larger : w.Extends v) (closed : w.Closed) {s t : StateId}
    (known : w.HasState s) (reaches : w.Reaches s t) : w.HasState t ∧ v.Reaches s t := by
  induction reaches with
  | refl => exact ⟨known, .refl⟩
  | tail _ leads ih =>
    obtain ⟨there, reaches⟩ := ih
    exact ⟨closed _ _ (List.mem_append_left _ leads),
      reaches.tail (by rwa [larger.state _ there])⟩

/-- What occurs in a graph occurs in it where there are further states. -/
theorem Extends.occurs (larger : w.Extends v) (closed : w.Closed) {start s : StateId}
    (known : w.HasState start) (occurs : w.Occurs start s) : w.HasState s ∧ v.Occurs start s := by
  obtain ⟨path, first, unrolls, reaches⟩ := occurs
  have unrolled : w.HasState first ∧ v.Unrolls start path first := by
    induction unrolls generalizing s with
    | top => exact ⟨known, .top⟩
    | @nested path first t next i _ reaches' runs ih =>
      obtain ⟨there, unrolls⟩ := ih reaches'
      obtain ⟨there, reaches'⟩ := larger.reaches closed there reaches'
      refine ⟨closed _ _ (List.mem_append_right _ (List.mem_of_getElem? runs)), ?_⟩
      exact .nested unrolls reaches' (by rwa [larger.state _ there])
  obtain ⟨there, reaches⟩ := larger.reaches closed unrolled.1 reaches
  exact ⟨there, path, first, unrolled.2, reaches⟩

theorem Occurs.references {start s t : StateId} (occurs : w.Occurs start s)
    (refers : t ∈ (w.state s).references) : w.Occurs start t := by
  rcases List.mem_append.mp refers with leads | runs
  · exact occurs.successor leads
  · obtain ⟨path, first, unrolls, reaches⟩ := occurs
    obtain ⟨i, at_i⟩ := List.mem_iff_getElem?.mp runs
    exact ⟨_, t, .nested unrolls reaches at_i, .refl⟩

theorem extends_define (w : Workspace) (d : ScopeId) (scope : Scope) (new : State) :
    w.Extends ((w.setScope d scope).define d new) := by
  refine ⟨fun s known => state_define_of_hasState known d new, ?_, rfl⟩
  exact (Array.size_push new).symm ▸ Nat.le_succ w.states.size

theorem namesakes_define {granted : String} {scope : Scope} {s : StateId}
    (ok : (w.scope d).allocate id = .ok (granted, scope)) (there : w.HasScope d) (new : State)
    (known : w.HasState s) : ((w.setScope d scope).define d new).namesakes s =
      if (w.state s).scope = d ∧ (w.state s).name = new.name then
        w.namesakes s ++ [⟨w.states.size⟩] else w.namesakes s := by
  have here : (w.setScope d scope).HasScope d := by simpa [HasScope, setScope] using there
  have lists := fun c => named_setScope (w := w) (Scope.named_of_allocate ok) c
  rw [namesakes, namesakes, (w.extends_define d scope new).state s known, named_define here,
    lists, lists]
  split
  · rename_i own
    rw [own.1]
    rfl
  · rfl

theorem scope_define_setScope (there : w.HasScope d) (scope : Scope) (new : State) :
    ((w.setScope d scope).define d new).scope d = scope.define new.name ⟨w.states.size⟩ := by
  have here : (w.setScope d scope).HasScope d := by simpa [HasScope, setScope] using there
  have reserved : (w.setScope d scope).scope d = scope :=
    (scope_setScope ..).trans (if_pos ⟨rfl, there⟩)
  rw [scope_define, if_pos ⟨rfl, here⟩, reserved]
  rfl

/-- Who defines a state where the id is taken that it had gets another id, and with it another path
and, unless a name is given, another name. -/
theorem again_of_taken {granted : String} {scope : Scope}
    (ok : (w.scope d).allocate id = .ok (granted, scope))
    (path : (v.scope d).path = (w.scope d).path) (taken : granted ∈ (v.scope d).taken)
    (common : CommonFields) {description : Description}
    (bound : description.lacksResource = false) : ∃ s t w' v',
      Build.state d id name common description w = .ok s w' ∧
        Build.state d id name common description v = .ok t v' ∧
        (v'.state t).id ≠ (w'.state s).id ∧ (v'.state t).path ≠ (w'.state s).path ∧
        ((v'.state t).name = (w'.state s).name ↔ ∃ given ∈ name, given.isEmpty = false) := by
  obtain ⟨given, -⟩ := Scope.allocate_eq_ok.mp ok
  obtain ⟨granted', scope', ok'⟩ := (v.scope d).exists_allocate given
  obtain ⟨s, w', first, ids, paths, names⟩ := Build.state_of_bound ok name common bound
  obtain ⟨t, v', second, ids', paths', names'⟩ := Build.state_of_bound ok' name common bound
  have other : granted' ≠ granted := by
    rintro rfl
    exact (Scope.taken_of_allocate ok').1 taken
  refine ⟨s, t, w', v', first, second, ?_, ?_, ?_⟩
  · rwa [ids, ids']
  · rw [paths, paths', Scope.childPath, Scope.childPath, path]
    exact fun same => other ((String.append_right_inj _).mp same)
  · rw [names, names']
    cases own : name.filter fun given => !given.isEmpty with
    | none =>
      refine ⟨fun same => absurd same other, ?_⟩
      rintro ⟨text, rfl, filled⟩
      simp [Option.filter, filled] at own
    | some text =>
      obtain ⟨rfl, filled⟩ := Option.filter_eq_some_iff.mp own
      exact ⟨fun _ => ⟨text, rfl, by simpa using filled⟩, fun _ => rfl⟩

end Workspace

namespace Operation

variable {w : Workspace} {op : Operation}

theorem after_of_not_isGranted (w : Workspace) (refused : ¬ op.isGranted = true) :
    op.after w = w := by
  cases op with
  | inquiry q => exact absurd rfl refused
  | edit e =>
    cases e with
    | scope id parent =>
      have illegal : ¬ (id.isEmpty = false ∧ '/' ∉ id.toList) := by simpa [isGranted] using refused
      obtain ⟨fault, same⟩ := Build.scope_of_illegal (w := w) illegal parent
      simp only [after, Edit.after, Build.after, same]
    | state d id name common description =>
      have empty : id.isEmpty = true := by simpa [isGranted] using refused
      have same := Build.state_of_error ((w.scope d).allocate_of_isEmpty empty) name common
        description
      simp only [after, Edit.after, Build.after, same]
    | _ => exact absurd rfl refused

theorem accepted_or_unbound (granted : op.isGranted = true) :
    op.Accepted ∨ op.unbound? = some true := by
  cases op with
  | inquiry q => exact .inl trivial
  | edit e =>
    cases e with
    | scope id parent =>
      have legal : id.isEmpty = false ∧ '/' ∉ id.toList := by simpa [isGranted] using granted
      left
      intro w
      cases outcome : Build.scope id parent w with
      | ok c v => exact ⟨c, v, rfl⟩
      | error fault v => exact absurd legal (Build.scope_eq_error outcome).1
    | state d id name common description =>
      have given : id.isEmpty = false := by simpa [isGranted] using granted
      cases bound : description.lacksResource with
      | true =>
        right
        simp [unbound?, given, bound]
      | false =>
        left
        intro w
        obtain ⟨granted, scope, ok⟩ := (w.scope d).exists_allocate given
        obtain ⟨s, v, made, -⟩ := Build.state_of_bound ok name common bound
        exact ⟨s, v, made⟩
    | _ => exact .inl trivial

end Operation

namespace Runs

open Workspace

variable {u v w : Workspace} {ops : List Operation} {d : ScopeId} {id : String}
  {name : Option String} {common : CommonFields}

/-- Further states make no difference to a graph if those of the graph are judged as before. -/
theorem outcome_eq_of_occurs (runs : Runs {} ops w) (larger : w.Extends v) {ref : GraphRef}
    (known : w.HasGraph ref.root)
    (listed : (w.graph ref.root).compiled = none → ∀ s, w.HasState s →
      w.Occurs (w.graph ref.root).start s → v.namesakes s = w.namesakes s ∨
        (w.namesakes s).length ≤ 1 ∧ (v.namesakes s).length ≤ 1) (q : Question) :
    q.outcome ref v = q.outcome ref w := by
  refine runs.outcome_eq_of_extends larger known ?_ q
  cases kept : (w.graph ref.root).compiled with
  | some c => rw [compiled, compiled, kept]
  | none =>
    rw [compiled_of_fresh kept, compiled, kept]
    have judges : w.Judges v fun s =>
        w.HasState s ∧ w.Occurs (w.graph ref.root).start s := by
      constructor
      case known => exact fun s inside => inside.1
      case closed =>
        exact fun s inside t refers => ⟨runs.closed s t refers, inside.2.references refers⟩
      case listed => exact fun s inside => listed kept s inside.1 inside.2
    exact judges.compile_eq runs.indexed larger ⟨runs.hasState_start known, [], _, .top, .refl⟩

/-- A graph that is not compiled has no answers anymore once a state of it clashes. -/
theorem outcome_of_clash (runs : Runs {} ops w) (larger : w.Extends v) {ref : GraphRef}
    (known : w.HasGraph ref.root) (fresh : (w.graph ref.root).compiled = none) {s : StateId}
    (occurs : w.Occurs (w.graph ref.root).start s) (clash : 1 < (v.namesakes s).length)
    (q : Question) : ∃ fault, q.outcome ref v = .error fault := by
  obtain ⟨-, occurs⟩ := larger.occurs runs.closed (runs.hasState_start known) occurs
  rw [Build.outcome_eq, larger.graph, compiled, fresh]
  cases compiled : v.compile (w.graph ref.root).label (w.graph ref.root).start with
  | error fault => exact ⟨fault, rfl⟩
  | ok c => exact absurd clash ((compile_wellFormed compiled).single occurs).not_gt

/-- What is left over where a task is refused for its resource. -/
theorem leftover (runs : Runs {} ops w) (there : w.HasScope d) (given : id.isEmpty = false)
    {typeName : String} {fields : TaskFields} {fault : Fault}
    (refused : Build.state d id name common (.task (.error typeName) fields) w = .error fault v) :
    w.Leftover v d id name common := by
  obtain ⟨granted, scope, allocated⟩ := (w.scope d).exists_allocate given
  rw [Build.state_of_unbound allocated] at refused
  obtain ⟨-, rfl⟩ := EStateM.Result.error.inj refused
  generalize task : w.unboundTask d granted name common = new
  have unbound : new.isUnbound = true := task ▸ rfl
  have asked : w.nameGiven? d id name = some new.name := by
    rw [nameGiven?, allocated, ← task]
    rfl
  have larger := w.extends_define d scope new
  have own := scope_define_setScope there scope new
  constructor
  case left => exact ⟨granted, scope, allocated, by rw [task]⟩
  case barred =>
    intro more u later label start occurs
    have last : ((w.setScope d scope).define d new).state ⟨w.states.size⟩ = new :=
      (state_define ..).trans (if_pos rfl)
    have stays := later.isUnbound_eq (s := ⟨w.states.size⟩) (hasState_define.mpr (.inr rfl))
    rw [last, unbound] at stays
    exact exists_fault_of_isUnbound occurs stays label
  case state => exact larger.state
  case scope =>
    intro c other
    rw [scope_define, if_neg fun own => other own.1, scope_setScope, if_neg fun own => other own.1]
  case again =>
    intro common description bound
    refine again_of_taken allocated ?_ ?_ common bound
    · rw [own]
      exact (Scope.place_of_allocate allocated).2.1
    · rw [own]
      exact (Scope.taken_of_allocate allocated).2 ▸ List.mem_cons_self
  case answers =>
    intro ref known apart
    refine runs.outcome_eq_of_occurs larger known fun fresh s old occurs => ?_
    rw [namesakes_define allocated there new old]
    split
    · rename_i alike
      have none := apart.resolve_left (fun other => other fresh) s occurs alike.1
        (asked.trans (congrArg some alike.2.symm))
      rw [none]
      exact .inr ⟨Nat.zero_le 1, Nat.le_refl 1⟩
    · exact .inl rfl
  case clash =>
    intro ref known fresh s occurs within called listed q
    refine runs.outcome_of_clash larger known fresh occurs ?_ q
    have old := (larger.occurs runs.closed (runs.hasState_start known) occurs).1
    have alike : (w.state s).name = new.name := Option.some.inj (called.symm.trans asked)
    rw [namesakes_define allocated there new old, if_pos ⟨within, alike⟩, List.length_append]
    exact Nat.lt_add_of_pos_left (List.length_pos_iff.mpr listed)

/-- Definitions that are refused for their ids can be left out of a history. -/
theorem granted (runs : Runs u ops w) : Runs u (ops.filter Operation.isGranted) w := by
  induction runs with
  | nil u => exact .nil u
  | @cons u w op ops within rest ih =>
    by_cases granted : op.isGranted = true
    · rw [List.filter_cons_of_pos granted]
      exact .cons within ih
    · rw [List.filter_cons_of_neg granted]
      rwa [op.after_of_not_isGranted u granted] at ih

end Runs

namespace Runs

variable {w : Workspace} {ops : List Operation}

/-- What rejected definitions leave. A history comes to the same without those that are refused for
their ids. All other definitions succeed but those of tasks without a resource, and its unbound
tasks are what these have left, one each and in their order. Taken by themselves rejected
definitions leave a workspace as it was, or they leave an unbound task over: everything else is as
it was and is answered as before, unless the task clashes with a state of a graph, but its id is
taken. -/
theorem rejections_traced (runs : Runs {} ops w) :
    Runs {} (ops.filter Operation.isGranted) w ∧
      (∀ op ∈ ops.filter Operation.isGranted, op.Accepted ∨ op.unbound? = some true) ∧
      w.states.toList.map State.isUnbound = ops.filterMap Operation.unbound? ∧
      (∀ id parent fault v, Build.scope id parent w = .error fault v → v = w) ∧
      ∀ d, w.HasScope d → ∀ id name common description fault v,
        Build.state d id name common description w = .error fault v →
        id.isEmpty = true ∧ v = w ∨ id.isEmpty = false ∧
          (∃ typeName fields, description = .task (.error typeName) fields ∧
            fault = .notAResource typeName) ∧ w.Leftover v d id name common := by
  refine ⟨runs.granted, ?_, ?_, fun id parent fault v refused => (Build.scope_eq_error refused).2,
    ?_⟩
  · intro op member
    exact Operation.accepted_or_unbound (List.mem_filter.mp member).2
  · exact runs.unbound_traced
  · intro d there id name common description fault v refused
    rcases Build.state_eq_error refused with same | ⟨given, typeName, fields, rfl, rfl⟩
    · exact .inl same
    · exact .inr ⟨given, ⟨typeName, fields, rfl, rfl⟩, runs.leftover there given refused⟩

/-- A scope and a state that are refused for their ids and a task that is for its resource, between
definitions that are not, and a graph of a state with a name of its own. -/
def tried : List Operation :=
  [.edit (.scope "T" none), .edit (.scope "A/B" (some ⟨0⟩)), .edit (.state ⟨0⟩ "" none {} .succeed),
    .edit (.state ⟨0⟩ "A" none {} (.task (.error "int") {})),
    .edit (.state ⟨0⟩ "A" (some "Same") {} (.pass {})), .edit (.stop ⟨1⟩),
    .inquiry (.graph (some ⟨1⟩) "" .null)]

/-- What is left over of a further task can be wired, but no graph compiles with it. -/
theorem tried_rejections_traced :
    ∃ w v u x, Runs {} tried w ∧ (tried.filter Operation.isGranted).length = 5 ∧
      Runs {} (tried.filter Operation.isGranted) w ∧
      w.states.toList.map State.isUnbound = [true, false] ∧
      Build.state ⟨0⟩ "B" none {} (.task (.error "int") {}) w = .error (.notAResource "int") v ∧
      Question.document.outcome ⟨⟨0⟩, []⟩ v = Question.document.outcome ⟨⟨0⟩, []⟩ w ∧
      Runs v [.edit (.retry ⟨2⟩ { backoffRate := .nat 2 }), .edit (.stop ⟨2⟩)] x ∧
      (x.state ⟨2⟩).retries.length = 1 ∧
      x.compile "" ⟨2⟩ = .error (.unsupported "Task" "timeout_seconds") ∧
      (∀ label, ∃ fault, x.compile label ⟨2⟩ = .error fault) ∧
      Build.state ⟨0⟩ "B" (some "Same") {} (.task (.error "int") {}) w =
        .error (.notAResource "int") u ∧
      ∃ fault, Question.document.outcome ⟨⟨0⟩, []⟩ u = .error fault := by
  have runs : Runs {} tried _ := .of_allows (by decide)
  obtain ⟨granted, -, traced, -, rejected⟩ := runs.rejections_traced
  obtain ⟨v, aside⟩ : ∃ v, Build.state ⟨0⟩ "B" none {} (.task (.error "int") {})
      (Workspace.run {} tried) = .error (.notAResource "int") v := ⟨_, rfl⟩
  have alike : Build.state ⟨0⟩ "B" (some "Same") {} (.task (.error "int") {})
      (Workspace.run {} tried) = .error (.notAResource "int") _ := rfl
  have known : (Workspace.run {} tried).HasGraph ⟨0⟩ := by decide
  have occurs : (Workspace.run {} tried).Occurs ⟨1⟩ ⟨1⟩ := ⟨[], ⟨1⟩, .top, .refl⟩
  rcases rejected ⟨0⟩ (by decide) _ _ _ _ _ _ aside with ⟨empty, -⟩ | ⟨-, -, leftover⟩
  · cases empty
  rcases rejected ⟨0⟩ (by decide) _ _ _ _ _ _ alike with ⟨empty, -⟩ | ⟨-, -, leftover'⟩
  · cases empty
  have free : ∀ s, (Workspace.run {} tried).nameGiven? ⟨0⟩ "B" none ≠
      some ((Workspace.run {} tried).state s).name := by
    have size : (Workspace.run {} tried).states.size = 2 := rfl
    rintro ⟨_ | _ | i⟩
    · decide
    · decide
    · rw [Workspace.state_of_not_hasState (by rw [Workspace.HasState, size]; simp)]
      decide
  have answers := leftover.answers ⟨⟨0⟩, []⟩ known
    (.inr fun s _ _ called => absurd called (free s)) .document
  have later : Runs v [.edit (.retry ⟨2⟩ { backoffRate := .nat 2 }), .edit (.stop ⟨2⟩)] _ :=
    .of_allows (by cases aside; decide)
  refine ⟨_, v, _, _, runs, rfl, granted, traced, aside, answers, later, ?_, ?_, fun label => ?_,
    alike, leftover'.clash ⟨⟨0⟩, []⟩ known rfl ⟨1⟩ occurs rfl rfl (by decide) .document⟩
  · cases aside
    rfl
  · cases aside
    rfl
  · exact leftover.barred _ _ later label ⟨2⟩ ⟨[], ⟨2⟩, .top, .refl⟩

/-- A task that is refused keeps its id from who repeats the definition, and its name from a
graph. -/
theorem refused_task_lingers :
    let once : List Operation :=
      [.edit (.scope "T" none), .edit (.state ⟨0⟩ "A" (some "Same") {} (.task (.error "int") {}))]
    let retried : List Operation := once ++
      [.edit (.state ⟨0⟩ "A" (some "Same") {} (.pass {})), .edit (.stop ⟨1⟩),
        .inquiry (.graph (some ⟨1⟩) "" .null)]
    ∃ w v, Runs {} [.edit (.scope "T" none)] w ∧
      Build.state ⟨0⟩ "A" (some "Same") {} (.task (.error "int") {}) w =
        .error (.notAResource "int") v ∧
      (w.scope ⟨0⟩).taken = [] ∧ (v.scope ⟨0⟩).taken = ["A"] ∧
      (w.scope ⟨0⟩).named "Same" = [] ∧ (v.scope ⟨0⟩).named "Same" = [⟨0⟩] ∧
      Runs {} once v ∧ ∃ u label u', Runs {} retried u ∧ (u.state ⟨1⟩).id = "A_2" ∧
        Build.compiled ⟨0⟩ u = .error (.duplicateName "Same" "T/A" "T/A_2" label) u' := by
  intro once retried
  have first : Runs {} [.edit (.scope "T" none)] _ := .of_allows (by decide)
  have runs : Runs {} once _ := .of_allows (by decide)
  have again : Runs {} retried _ := .of_allows (by decide)
  exact ⟨_, _, first, rfl, rfl, rfl, rfl, rfl, runs, _, _, _, again, rfl, rfl⟩

end Runs
end Workflow
