import Workflow.Json.Access
import Workflow.Nested

/-!
Outlines of documents: what a drawing shows of each state and of each document nested in it. An
outline is taken from any value that has the form of a document; the first part that is missing or
has another form is reported, in the order in which a drawing would come to it. Outlines exist of
all values because a nested document holds fewer lists and objects than what it is nested in.
-/

namespace Workflow

namespace Drawing

/-- What a drawing remarks of a state, behind its name and type. -/
inductive Remark where
  | leads (targets : String)
  | default (target : String)
  | ends
  | catches (errors target : String)
  | retries (count : Nat)

structure StateLine where
  name : String
  type : String
  remarks : List Remark

/-- How a nested document is announced. -/
structure Caption where
  label : String
  start : String

abbrev Outline := Nested Caption StateLine

/-- A whole document: its heading, its timeout if it has one, and its states. -/
structure Sheet where
  heading : String
  timeout : Option String
  states : List (StateLine × List Outline)

/-- A type is looked up among those that have a style, for which it must be hashable. -/
def checkType : Json → Except Fault Unit
  | .array _ => .error (.notHashable "list")
  | .object _ => .error (.notHashable "dict")
  | _ => .ok ()

/-- Where a state leads. -/
def ways (state type : Json) : Except Fault (List Remark) := do
  if type.string? = some "Choice" then
    let targets ← (← state.listed "Choices").mapM (Json.required "Next")
    let targets ← Json.joined targets
    let default := (state.field? "Default").map fun target => Remark.default target.display
    return Remark.leads targets :: default.toList
  else match state.field? "Next" with
    | some target => return [.leads target.display]
    | none => return if ((state.field? "End").getD .null).isEmpty then [] else [.ends]

def handler (value : Json) : Except Fault Remark := do
  match (← value.required "ErrorEquals").elements? with
  | none => .error .notJoined
  | some errors =>
    let errors ← Json.joined errors
    let target ← value.required "Next"
    return .catches errors target.display

def StateLine.ofJson (name : String) (state : Json) : Except Fault StateLine := do
  let type ← state.required "Type"
  checkType type
  let ways ← ways state type
  let handlers ← (← state.listed "Catch").mapM handler
  let retry := (state.field? "Retry").getD .null
  let retries ← if retry.isEmpty then pure [] else pure [.retries (← retry.count)]
  return ⟨name, type.display, ways ++ handlers ++ retries⟩

/-- The documents nested in a state, each with what it is called. -/
def nestedDocuments (state : Json) : Except Fault (List (String × Json)) :=
  match (state.field? "Type").bind Json.string? with
  | some "Parallel" => do
    let branches ← state.listed "Branches"
    return branches.zipIdx.map fun (branch, i) => (s!"Branch {i + 1}", branch)
  | some "Map" => .ok ((state.field? "Iterator").map fun doc => ("Iterator", doc)).toList
  | _ => .ok []

/-- What a value that is no object has under one of its own elements. -/
def stateAt (states name : Json) : Except Fault Json :=
  match states with
  | .array items => Json.item items name
  | _ => states.required name.display

/-- The states of a document in order, each under its name. A value that is no object is asked for
its states name by name. -/
def statesOf (doc : Json) : Except Fault (List (String × Except Fault Json)) := do
  match ← doc.required "States" with
  | .object fields => return fields.map fun (name, state) => (name, .ok state)
  | states => return (← states.elements).map fun name => (name.display, stateAt states name)

theorem containers_stateAt_le {states name state : Json} (h : stateAt states name = .ok state) :
    state.containers ≤ states.containers := by
  unfold stateAt at h
  split at h
  · have := Json.containers_item_le h
    simp only [Json.containers]
    omega
  · exact Nat.le_of_lt (Json.containers_required_lt h)

theorem containers_lt_of_nestedDocuments {state doc : Json} {label : String}
    {documents : List (String × Json)} (h : nestedDocuments state = .ok documents)
    (member : (label, doc) ∈ documents) : doc.containers < state.containers := by
  unfold nestedDocuments at h
  split at h
  · cases found : state.field? "Branches" with
    | none =>
      simp only [Json.listed, found, bind, Except.bind, pure, Except.pure, Except.ok.injEq,
        List.zipIdx_nil, List.map_nil] at h
      subst h
      cases member
    | some branches =>
      have smaller := Json.containers_field?_lt found
      cases listed : branches.elements with
      | error fault => simp [Json.listed, found, listed, bind, Except.bind] at h
      | ok items =>
        simp only [Json.listed, found, listed, bind, Except.bind, pure, Except.pure,
          Except.ok.injEq] at h
        subst h
        obtain ⟨⟨branch, i⟩, inItems, same⟩ := List.mem_map.mp member
        cases same
        have := Json.containers_le_of_mem_elements listed (List.fst_mem_of_mem_zipIdx inItems)
        omega
  · cases found : state.field? "Iterator" with
    | none =>
      simp only [found, Option.map_none, Option.toList_none, Except.ok.injEq] at h
      subst h
      cases member
    | some iterator =>
      simp only [found, Option.map_some, Option.toList_some, Except.ok.injEq] at h
      subst h
      cases List.mem_singleton.mp member
      exact Json.containers_field?_lt found
  · cases h
    cases member

theorem containers_lt_of_statesOf {doc state : Json} {name : String}
    {states : List (String × Except Fault Json)} (h : statesOf doc = .ok states)
    (member : (name, .ok state) ∈ states) : state.containers < doc.containers := by
  unfold statesOf at h
  cases found : doc.required "States" with
  | error fault => simp [found, bind, Except.bind] at h
  | ok value =>
    have smaller := Json.containers_required_lt found
    simp only [found, bind, Except.bind] at h
    split at h
    · rename_i fields
      cases h
      obtain ⟨field, inFields, same⟩ := List.mem_map.mp member
      cases same
      have := Json.containers_le_fieldContainers inFields
      simp only [Json.containers] at smaller
      omega
    · cases listed : value.elements with
      | error fault => simp [listed] at h
      | ok names =>
        simp only [listed, pure, Except.pure, Except.ok.injEq] at h
        subst h
        obtain ⟨element, -, same⟩ := List.mem_map.mp member
        have := containers_stateAt_le (Prod.ext_iff.mp same).2
        omega

mutual
/-- The outline of a state: its line and the documents nested in it. -/
def outlineState (name : String) (state : Json) : Except Fault (StateLine × List Outline) := do
  let line ← StateLine.ofJson name state
  match _ : nestedDocuments state with
  | .error fault => .error fault
  | .ok documents =>
    let nested ← documents.attach.mapM fun ⟨(label, doc), _⟩ => outlineDocument label doc
    return (line, nested)
termination_by state.containers
decreasing_by exact containers_lt_of_nestedDocuments ‹_› ‹_›

/-- The outline of a nested document under the name it is called by. -/
def outlineDocument (label : String) (doc : Json) : Except Fault Outline := do
  let start ← doc.required "StartAt"
  match _ : statesOf doc with
  | .error fault => .error fault
  | .ok states =>
    let inner ← states.attach.mapM fun
      | ⟨(_, .error fault), _⟩ => .error fault
      | ⟨(name, .ok state), _⟩ => outlineState name state
    return .node ⟨label, start.display⟩ inner
termination_by doc.containers
decreasing_by exact containers_lt_of_statesOf ‹_› ‹_›
end

/-- The outlines of states, as far as they can be had. -/
def outlineStates (states : List (String × Except Fault Json)) :
    Except Fault (List (StateLine × List Outline)) :=
  states.mapM fun (name, state) => do outlineState name (← state)

theorem mapM_attach {α β : Type} (f : α → Except Fault β) (items : List α) :
    (items.attach.mapM fun item => f item.1) = items.mapM f := by
  change items.attach.mapM (f ∘ Subtype.val) = _
  rw [← List.mapM_map, List.attach_map_subtype_val]

/-- The outline of a state without regard to its termination. -/
theorem outlineState_eq (name : String) (state : Json) :
    outlineState name state = (do
      let line ← StateLine.ofJson name state
      let documents ← nestedDocuments state
      let nested ← documents.mapM fun (label, doc) => outlineDocument label doc
      return (line, nested)) := by
  rw [outlineState]
  congr 1
  funext line
  cases nestedDocuments state with
  | error => rfl
  | ok documents =>
    change (documents.attach.mapM _ >>= _) = _
    exact congrArg (· >>= _) (mapM_attach (fun d => outlineDocument d.1 d.2) documents)

/-- The outline of a nested document without regard to its termination. -/
theorem outlineDocument_eq (label : String) (doc : Json) :
    outlineDocument label doc = (do
      let start ← doc.required "StartAt"
      let states ← statesOf doc
      let inner ← outlineStates states
      return .node ⟨label, start.display⟩ inner) := by
  rw [outlineDocument]
  congr 1
  funext start
  cases statesOf doc with
  | error => rfl
  | ok states =>
    change (states.attach.mapM _ >>= _) = _
    refine congrArg (· >>= _) (Eq.trans ?_
      (mapM_attach (fun s => do outlineState s.1 (← s.2)) states))
    congr 1
    funext s
    obtain ⟨⟨name, state⟩, _⟩ := s
    cases state <;> rfl

/-- The outline of a document under a title, or without one under the name of its start. -/
def Sheet.ofJson (doc : Json) (title : Option String) : Except Fault Sheet := do
  let heading ← match title.filter fun given => !given.isEmpty with
    | some given => .ok given
    | none => do
      let start ← doc.required "StartAt"
      pure ("Start at " ++ start.display)
  let timeout := (← doc.sought "TimeoutSeconds").map Json.display
  let states ← statesOf doc
  return ⟨heading, timeout, ← outlineStates states⟩

end Drawing
end Workflow
