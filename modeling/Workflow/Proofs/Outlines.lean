import Workflow.Drawing.Outline
import Workflow.Proofs.Decoding
import Workflow.Proofs.Outcome

/-!
Outlines of documents that are handed out. Such a document has every part that an outline is taken
from, so the outline exists, and it says of each entry what the entry itself says: its name, its
type, where it leads, and the documents nested in it under what they are called.
-/

namespace Workflow

open Drawing

/-- The names of the errors that a handler is for. -/
def Catch.names (handler : Catch String) : List String := handler.errors.filterMap Json.string?

/-- Whether all errors that the handlers of an entry are for have names. -/
def Entry.Named (e : Entry) : Prop :=
  ∀ handler ∈ e.catches, handler.errors = handler.names.map Json.string

namespace Entry

/-- What a drawing remarks of the way out, the handlers and the retries of an entry that leads on or
ends. -/
def onwardRemarks (e : Entry) : List Remark :=
  (match e.next with
    | some name => .leads name
    | none => .ends) ::
  e.catches.map (fun handler => .catches (", ".intercalate handler.names) handler.target) ++
  (if e.retries.isEmpty then [] else [.retries e.retries.length])

/-- What a drawing remarks of an entry. -/
def remarks (e : Entry) : List Remark :=
  match e.content with
  | .choice rules =>
    .leads (", ".intercalate (rules.map (·.target))) :: (e.next.map Remark.default).toList
  | .succeed | .fail _ => []
  | _ => e.onwardRemarks

def line (e : Entry) : StateLine := ⟨e.name, e.content.type.name, e.remarks⟩

/-- What a document nested in an entry is called, by how many come before it. -/
def label (e : Entry) (before : Nat) : String :=
  match e.content with
  | .parallel _ => s!"Branch {before + 1}"
  | _ => "Iterator"

end Entry

/-- The outline of a document under the name that it is called by. -/
def Document.outline : Document → String → Outline :=
  Nested.fold fun heading es label => .node ⟨label, heading.startAt⟩
    (es.map fun e => (e.1.line, e.2.zipIdx.map fun (inner, i) => inner (e.1.label i)))

/-- The outlines of the entries of a document. -/
def Document.outlines (document : Document) : List (StateLine × List Outline) :=
  document.entries.map fun e =>
    (e.1.line, e.2.zipIdx.map fun (inner, i) => outline inner (e.1.label i))

/-- A document under a title, or without one under the name of its start. -/
def Document.sheet (document : Document) (title : Option String) : Sheet where
  heading := (title.filter fun given => !given.isEmpty).getD ("Start at " ++ document.info.startAt)
  timeout := document.info.timeout.map fun seconds => (Json.nat seconds).display
  states := document.outlines

theorem Document.outline_node (heading : Heading) (es : List (Entry × List Document))
    (label : String) :
    outline (.node heading es) label =
      .node ⟨label, heading.startAt⟩ (outlines (.node heading es)) := by
  rw [outline, Nested.fold_node]
  simp only [outlines, Nested.entries, List.map_map, Function.comp_def, List.zipIdx_map, Prod.map]
  rfl

namespace Json

theorem joined_strings (texts : List String) :
    joined (texts.map .string) = .ok (", ".intercalate texts) := by
  rw [joined, Outcome.bind_eq_ok]
  refine ⟨texts, ?_, rfl⟩
  rw [Outcome.mapM_eq_ok]
  generalize 0 = first
  induction texts generalizing first with
  | nil => exact .nil
  | cons text texts ih => exact .cons rfl (ih _)

end Json

namespace Entry

theorem field?_type (e : Entry) (nested : List Json) :
    (e.toJson nested).field? "Type" = some (.string e.content.type.name) := by
  rw [toJson, Content.fragment]
  rfl

theorem handlers_toJson {e : Entry} (named : e.Named) :
    (e.catches.map Catch.toJson).mapM handler =
      .ok (e.catches.map fun h => .catches (", ".intercalate h.names) h.target) := by
  rw [List.mapM_map]
  refine Outcome.mapM_eq_map fun h member => ?_
  have errors : h.toJson.required "ErrorEquals" = .ok (.array (h.names.map .string)) :=
    named h member ▸ rfl
  have target : h.toJson.required "Next" = .ok (.string h.target) := rfl
  simp only [Function.comp_apply, handler, errors, target, bind, Except.bind, Json.elements?,
    Json.joined_strings]
  rfl

theorem rules_toJson (rules : List (Rule String)) :
    (rules.map Rule.toJson).mapM (Json.required "Next") =
      .ok ((rules.map (·.target)).map Json.string) := by
  rw [List.mapM_map, List.map_map]
  refine Outcome.mapM_eq_map fun rule _ => ?_
  rw [Function.comp_apply, Json.required, Rule.toJson, Json.field?_object, Json.lookup_setField]
  rfl

section Line

variable {e : Entry} (nested : List Json)

theorem ways_choice {rules : List (Rule String)} (choice : e.content = .choice rules) :
    ways (e.toJson nested) (.string e.content.type.name) = .ok e.remarks := by
  have choices : (e.toJson nested).listed "Choices" = .ok (rules.map Rule.toJson) := by
    rw [Json.listed, field?_toJson e nested (by decide), references, choice]
    rfl
  have default : (e.toJson nested).field? "Default" = e.next.map Json.string := by
    rw [field?_toJson e nested (by decide), references, choice]
    cases e.next <;> rfl
  have type : (Json.string e.content.type.name).string? = some "Choice" := by rw [choice]; rfl
  rw [ways, if_pos type]
  simp only [choices, rules_toJson, Json.joined_strings, default, remarks, choice, bind,
    Except.bind]
  cases e.next <;> rfl

/-- The way out of a state that is no choice is read off the fields for it alone. -/
theorem ways_of_not_choice (other : e.content.type ≠ .choice) :
    ways (e.toJson nested) (.string e.content.type.name) = .ok (
      match (e.references nested).lookup "Next" with
      | some target => [.leads target.display]
      | none =>
        if (((e.references nested).lookup "End").getD .null).isEmpty then [] else [.ends]) := by
  have type : (Json.string e.content.type.name).string? ≠ some "Choice" := by
    generalize e.content.type = type at other ⊢
    cases type <;> first | exact absurd rfl other | decide
  rw [ways, if_neg type, e.field?_toJson_of_not_describing nested (by decide),
    e.field?_toJson_of_not_describing nested (by decide)]
  cases (e.references nested).lookup "Next" <;> rfl

theorem listed_handlers (e : Entry) :
    (Json.object e.onward).listed "Catch" = .ok (e.catches.map Catch.toJson) := by
  unfold onward
  cases e.next <;> cases e.retries <;> cases e.catches <;>
    simp [Json.listed, Json.lookup_cons_of_ne, Json.elements, Json.elements?]

theorem lookup_retries (e : Entry) : e.onward.lookup "Retry" =
    if e.retries.isEmpty then none else some (.array (e.retries.map Retry.toJson)) := by
  unfold onward
  cases e.next <;> cases e.retries <;> cases e.catches <;> simp [Json.lookup_cons_of_ne]

/-- A state is described by its way out, its handlers and its retries. -/
theorem ofJson_of_parts {name type : String} {state : Json} {led handled : List Remark}
    {handlers : List Json} (retries : List Json) (typed : state.field? "Type" = some (.string type))
    (way : ways state (.string type) = .ok led) (listed : state.listed "Catch" = .ok handlers)
    (each : handlers.mapM handler = .ok handled)
    (tried : state.field? "Retry" = if retries.isEmpty then none else some (.array retries)) :
    StateLine.ofJson name state = .ok ⟨name, type,
      led ++ handled ++ if retries.isEmpty then [] else [.retries retries.length]⟩ := by
  simp only [StateLine.ofJson, Json.required, typed, checkType, way, listed, each, tried, bind,
    Except.bind]
  cases retries <;> rfl

theorem line_of_leads (named : e.Named) (leads : e.Leads) :
    StateLine.ofJson e.name (e.toJson nested) = .ok e.line := by
  have same {key : String} (apart : key ∉ Content.describing ∧ key ∉ ["Branches", "Iterator"]) :
      (e.toJson nested).field? key = e.onward.lookup key := by
    rw [e.field?_toJson_of_not_describing nested apart.1,
      lookup_references_onward leads nested apart.2]
  have way : ways (e.toJson nested) (.string e.content.type.name) =
      .ok [match e.next with | some name => .leads name | none => .ends] := by
    have other : e.content.type ≠ .choice := by
      unfold Leads at leads
      cases content : e.content <;> simp [content, Content.type] at leads ⊢
    rw [ways_of_not_choice nested other, lookup_references_onward leads nested (by decide),
      lookup_references_onward leads nested (by decide), e.lookup_onward_next, e.lookup_onward_end]
    cases e.next <;> rfl
  have handlers : (e.toJson nested).listed "Catch" = .ok (e.catches.map Catch.toJson) := by
    rw [← e.listed_handlers, Json.listed, Json.listed, same (by decide), Json.field?_object]
  have retries : (e.toJson nested).field? "Retry" =
      if (e.retries.map Retry.toJson).isEmpty then none
      else some (.array (e.retries.map Retry.toJson)) := by
    rw [same (by decide), e.lookup_retries, List.isEmpty_map]
  rw [ofJson_of_parts _ (e.field?_type nested) way handlers (handlers_toJson named) retries]
  have remarks : e.remarks = e.onwardRemarks := by
    unfold Leads at leads
    unfold Entry.remarks
    cases content : e.content <;> simp only [content] at leads ⊢
  rw [line, remarks, onwardRemarks, List.isEmpty_map, List.length_map]
  rfl

theorem line_of_not_leads (ends : ¬ e.Leads) :
    StateLine.ofJson e.name (e.toJson nested) = .ok e.line := by
  have none {key : String} (apart : key ∉ Content.describing ∧ key ∉ ["Choices", "Default"]) :
      (e.toJson nested).field? key = none := by
    rw [e.field?_toJson_of_not_describing nested apart.1,
      lookup_references_of_not_leads ends nested apart.2]
  have way : ways (e.toJson nested) (.string e.content.type.name) = .ok e.remarks := by
    cases content : e.content
    case choice rules => exact content ▸ ways_choice nested content
    case succeed | fail =>
      rw [← content, ways_of_not_choice nested (by simp [content, Content.type]),
        lookup_references_of_not_leads ends nested (by decide),
        lookup_references_of_not_leads ends nested (by decide), remarks, content]
      rfl
    all_goals exact absurd (by simp [Leads, content]) ends
  have handlers : (e.toJson nested).listed "Catch" = .ok [] := by
    rw [Json.listed, none (by decide)]
  rw [ofJson_of_parts [] (e.field?_type nested) way handlers rfl (none (by decide)), line]
  simp

/-- A drawing shows an entry as it is. -/
theorem line_toJson (named : e.Named) :
    StateLine.ofJson e.name (e.toJson nested) = .ok e.line := by
  by_cases leads : e.Leads
  · exact line_of_leads nested named leads
  · exact line_of_not_leads nested leads

end Line

theorem nestedDocuments_toJson (e : Entry) {nested : List Json} (holds : e.Holds nested.length) :
    nestedDocuments (e.toJson nested) = .ok (nested.zipIdx.map fun (d, i) => (e.label i, d)) := by
  rw [nestedDocuments, e.field?_type, Json.listed, field?_toJson e nested (by decide),
    field?_toJson e nested (by decide)]
  unfold Holds at holds
  cases content : e.content <;> rw [content] at holds
  case parallel =>
    simp only [references, label, content, List.lookup_cons_self]
    rfl
  case map =>
    obtain ⟨document, rfl⟩ := List.length_eq_one_iff.mp holds
    simp only [references, label, content, List.map_cons, List.cons_append, List.lookup_cons_self]
    rfl
  all_goals
    obtain rfl := List.length_eq_zero_iff.mp holds
    rfl

end Entry

namespace Document

/-- Whether all errors that handlers in a document are for have names. -/
def Named (document : Document) : Prop := ∀ d ∈ document.levels, ∀ e ∈ d.entries, e.1.Named

theorem named_node {heading : Heading} {es : List (Entry × List Document)} :
    Named (.node heading es) ↔ ∀ e ∈ es, e.1.Named ∧ ∀ d ∈ e.2, Named d := by
  rw [Named, Nested.forall_mem_levels_node]
  exact ⟨fun ⟨top, nested⟩ e entry => ⟨top e entry, nested e entry⟩,
    fun named => ⟨fun e entry => (named e entry).1, fun e entry => (named e entry).2⟩⟩

theorem statesOf_toJson (document : Document) : statesOf document.toJson =
    .ok (document.entries.map fun e => (e.1.name, .ok (e.1.toJson (e.2.map toJson)))) := by
  obtain ⟨heading, es⟩ := document
  have states : (toJson (.node heading es)).required "States" =
      .ok (.object (es.map fun e => (e.1.name, e.1.toJson (e.2.map toJson)))) := by
    rw [toJson_node]
    rfl
  rw [statesOf, states]
  exact congrArg Except.ok List.map_map

/-- The entries of a document are outlined if the documents nested in them are. -/
theorem outlines_of_nested {heading : Heading} {es : List (Entry × List Document)}
    (fits : Fits (.node heading es)) (named : Named (.node heading es))
    (inner : ∀ e ∈ es, ∀ d ∈ e.2, Fits d → Named d → ∀ label,
      outlineDocument label (toJson d) = .ok (outline d label)) :
    outlineStates (es.map fun e => (e.1.name, .ok (e.1.toJson (e.2.map toJson)))) =
      .ok (outlines (.node heading es)) := by
  rw [outlineStates, List.mapM_map]
  refine Outcome.mapM_eq_map fun e entry => ?_
  obtain ⟨holds, fits⟩ := fits_node.mp fits e entry
  obtain ⟨errors, named⟩ := named_node.mp named e entry
  have nested : ((e.2.map toJson).zipIdx.map fun d => (e.1.label d.2, d.1)).mapM
      (fun d => outlineDocument d.1 d.2) =
        .ok (e.2.zipIdx.map fun d => outline d.1 (e.1.label d.2)) := by
    rw [List.zipIdx_map, List.map_map, List.mapM_map]
    refine Outcome.mapM_eq_map fun d member => ?_
    have within := List.fst_mem_of_mem_zipIdx member
    exact inner e entry d.1 within (fits d.1 within) (named d.1 within) (e.1.label d.2)
  change outlineState e.1.name (e.1.toJson (e.2.map toJson)) = _
  rw [outlineState_eq, e.1.line_toJson _ errors, e.1.nestedDocuments_toJson (by simpa using holds)]
  simp only [bind, Except.bind, nested]
  rfl

theorem outlineDocument_toJson {document : Document} (fits : document.Fits)
    (named : document.Named) (label : String) :
    outlineDocument label document.toJson = .ok (document.outline label) := by
  induction document using Nested.induct generalizing label with
  | step heading es ih =>
    have entries := outlines_of_nested fits named ih
    rw [outlineDocument_eq, Json.required, startAt_toJson, statesOf_toJson, outline_node]
    simp only [bind, Except.bind, Nested.entries, entries]
    rfl

theorem timeout_toJson (document : Document) :
    document.toJson.field? "TimeoutSeconds" = document.info.timeout.map Json.nat := by
  obtain ⟨heading, es⟩ := document
  rw [toJson_node, Nested.info]
  cases heading.timeout <;> simp [Json.lookup_cons_of_ne]

/-- A document that is handed out can be outlined, and its outline shows it as it is. -/
theorem sheet_toJson {document : Document} (fits : document.Fits) (named : document.Named)
    (title : Option String) : Sheet.ofJson document.toJson title = .ok (document.sheet title) := by
  obtain ⟨heading, es⟩ := document
  have entries := outlines_of_nested fits named fun _ _ _ _ => outlineDocument_toJson
  have timeout : (toJson (.node heading es)).sought "TimeoutSeconds" =
      .ok ((toJson (.node heading es)).field? "TimeoutSeconds") := by
    rw [toJson_node]
    rfl
  rw [Sheet.ofJson, Json.required, startAt_toJson, timeout, timeout_toJson, statesOf_toJson, sheet]
  simp only [bind, Except.bind, Nested.entries, entries]
  cases title.filter fun given => !given.isEmpty <;>
    simp [pure, Except.pure, Function.comp_def, Json.display]

end Document
end Workflow
