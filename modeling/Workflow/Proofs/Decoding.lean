import Workflow.Proofs.History
import Workflow.Proofs.Reading

/-!
Decoding of documents. A document is read back as an abstract graph: a tree of levels that lists of
each state all that there is to say of it, with other states referred to by name. There is a reader
for each thing that is written, and it undoes the writing.
-/

namespace Workflow

/-- Where the way out of a state leads: nowhere, on, or to the end of its path. -/
inductive Way where
  | nowhere
  | next (name : String)
  | stop

/-- What there is to say of a state of a graph. -/
structure Summary where
  name : String
  common : CommonFields
  content : Option Content
  way : Way
  retries : List Retry
  catches : List (Catch String)

abbrev AbstractGraph := Nested Heading Summary

namespace Json

def asText (value : Json) : String := value.string?.getD ""

@[simp]
theorem asText_string (text : String) : (Json.string text).asText = text := rfl

@[simp]
theorem nat?_nat (n : Nat) : (Json.nat n).nat? = some n := by
  simp [nat, int, nat?]

@[simp]
theorem nat?_null : Json.null.nat? = none := rfl

def asNumber : Json → Number
  | .number n => n
  | _ => .int 0

/-- The value of an optional field, unless it is left out. -/
def given (value : Json) : Option Json := if value.isNull then none else some value

@[simp]
theorem getD_given (value : Json) : value.given.getD .null = value := by
  unfold given
  cases value <;> rfl

theorem lookup_optional_eq (key other : String) (value : Json) :
    (optional key value).lookup other = if other = key then value.given else none := by
  unfold optional given
  by_cases null : value.isNull = true
  · simp [null]
  · by_cases same : other = key
    · simp [null, same]
    · simp [null, same, lookup_cons_of_ne]

/-- Setting a field that is not there can be undone by leaving it out. -/
theorem filter_setField {fields : List (String × Json)} {key : String}
    (absent : ∀ field ∈ fields, field.1 ≠ key) (value : Json) :
    (setField fields key value).filter (·.1 ≠ key) = fields := by
  induction fields with
  | nil => simp [setField]
  | cons field fields ih =>
    obtain ⟨other, old⟩ := field
    obtain ⟨different, absent⟩ := List.forall_mem_cons.mp absent
    rw [setField, if_neg different, List.filter_cons_of_pos (by simpa using different), ih absent]

end Json

mutual
/-- The condition that an object states. What states none is read as an empty conjunction. -/
def Condition.read : Json → Condition
  | .object [("And", .array operands)] => .all (readAll operands)
  | .object [("Or", .array operands)] => .any (readAll operands)
  | .object [("Not", operand)] => .not (read operand)
  | .object [("Variable", .string path), (operator, operand)] => .compare path operator operand
  | _ => .all []

def Condition.readAll : List Json → List Condition
  | [] => []
  | operand :: operands => read operand :: readAll operands
end

def Rule.read (rule : Json) : Rule String :=
  ⟨.read (.object (rule.fields.filter (·.1 ≠ "Next"))), (rule.get "Next").asText⟩

def Retry.read (retry : Json) : Retry where
  errors := (retry.get "ErrorEquals").items
  intervalSeconds := (retry.get "IntervalSeconds").nat?.getD 0
  maxAttempts := (retry.get "MaxAttempts").nat?.getD 0
  backoffRate := (retry.get "BackoffRate").asNumber

def Catch.read (handler : Json) : Catch String where
  errors := (handler.get "ErrorEquals").items
  target := (handler.get "Next").asText
  resultPath := handler.get "ResultPath"

/-- What an entry says of the kind of its state, if it names one. -/
def Content.read (entry : Json) : Option Content :=
  (StateType.all.find? (·.name = (entry.get "Type").asText)).map fun
    | .task => .task (entry.get "Resource") {
        parameters := entry.get "Parameters"
        resultPath := entry.get "ResultPath"
        timeoutSeconds := entry.get "TimeoutSeconds"
        heartbeatSeconds := entry.get "HeartbeatSeconds" }
    | .choice => .choice ((entry.get "Choices").items.map Rule.read)
    | .wait => .wait {
        seconds := entry.get "Seconds"
        timestamp := entry.get "Timestamp"
        secondsPath := entry.get "SecondsPath"
        timestampPath := entry.get "TimestampPath" }
    | .parallel => .parallel {
        parameters := entry.get "Parameters"
        resultPath := entry.get "ResultPath" }
    | .map => .map {
        itemsPath := entry.get "ItemsPath"
        maxConcurrency := entry.get "MaxConcurrency"
        parameters := entry.get "Parameters"
        resultPath := entry.get "ResultPath" }
    | .pass => .pass {
        parameters := entry.get "Parameters"
        result := entry.get "Result"
        resultPath := entry.get "ResultPath" }
    | .succeed => .succeed
    | .fail => .fail { error := entry.get "Error", cause := entry.get "Cause" }

/-- The way out that an entry shows, which for a choice is its default. -/
def Way.read (entry : Json) : Way :=
  match (entry.field? "Next").or (entry.field? "Default"), entry.field? "End" with
  | some name, _ => .next name.asText
  | none, some _ => .stop
  | none, none => .nowhere

def CommonFields.read (entry : Json) : CommonFields where
  comment := entry.get "Comment"
  inputPath := entry.get "InputPath"
  outputPath := entry.get "OutputPath"

def Summary.read (entry : String × Json) : Summary where
  name := entry.1
  common := .read entry.2
  content := Content.read entry.2
  way := .read entry.2
  retries := (entry.2.get "Retry").items.map Retry.read
  catches := (entry.2.get "Catch").items.map Catch.read

def Heading.read (document : Json) : Heading where
  startAt := (document.get "StartAt").asText
  timeout := (document.get "TimeoutSeconds").nat?

/-- The graph that a document shows. -/
def Json.decode (document : Json) : AbstractGraph := document.tree.map .read .read

theorem Retry.read_toJson (retry : Retry) : Retry.read retry.toJson = retry := by
  simp [Retry.read, Retry.toJson, Json.lookup_cons_of_ne, Json.asNumber]

theorem Catch.read_toJson (handler : Catch String) : Catch.read handler.toJson = handler := by
  simp [Catch.read, Catch.toJson, Json.lookup_cons_of_ne, Json.lookup_optional_eq]

namespace Condition

theorem operator_of_comparison {path : Json} {operator : String} {operand : Json}
    {condition : Condition} (ok : comparison path operator operand = .ok condition) :
    ∃ text, condition = .compare text operator operand ∧ (Family.ofOperator? operator).isSome := by
  unfold comparison at ok
  split at ok
  · split at ok
    · split at ok
      · cases ok
      · rename_i family found
        split at ok
        · cases ok
          exact ⟨_, rfl, by rw [found]; rfl⟩
        · cases ok
    · cases ok
  · cases ok

theorem objects_eq_map (operands : List Condition) :
    objects operands = operands.map toJson := by
  induction operands with
  | nil => rfl
  | cons operand operands ih => rw [objects, List.map_cons, ih]; rfl

theorem readAll_eq_map (operands : List Json) : readAll operands = operands.map read := by
  induction operands with
  | nil => rfl
  | cons operand operands ih => rw [readAll, List.map_cons, ih]

theorem all_of_conjunction {operands : List Condition} {condition : Condition}
    (ok : conjunction operands = .ok condition) : condition = .all operands := by
  unfold conjunction at ok
  split at ok <;> cases ok
  rfl

theorem any_of_disjunction {operands : List Condition} {condition : Condition}
    (ok : disjunction operands = .ok condition) : condition = .any operands := by
  unfold disjunction at ok
  split at ok <;> cases ok
  rfl

theorem readAll_objects {operands : List Condition}
    (each : ∀ c ∈ operands, read c.toJson = c) : readAll (objects operands) = operands := by
  rw [objects_eq_map, readAll_eq_map, List.map_map]
  exact (List.map_congr_left each).trans (List.map_id operands)

/-- Reading undoes the writing of conditions that can be made. -/
theorem read_toJson {condition : Condition} (made : condition.Made) :
    read condition.toJson = condition := by
  induction made with
  | comparison ok =>
    obtain ⟨text, rfl, -⟩ := operator_of_comparison ok
    rw [toJson, fields, read]
  | conjunction each ok ih =>
    rw [all_of_conjunction ok, toJson, fields, read, readAll_objects ih]
  | disjunction each ok ih =>
    rw [any_of_disjunction ok, toJson, fields, read, readAll_objects ih]
  | @not operand made ih =>
    rw [toJson, fields, read]
    exact congrArg Condition.not ih

/-- No condition has a field of the name under which a rule says where it leads. -/
theorem ne_next_of_made {condition : Condition} (made : condition.Made) :
    ∀ field ∈ condition.fields, field.1 ≠ "Next" := by
  cases made with
  | comparison ok =>
    obtain ⟨text, rfl, known⟩ := operator_of_comparison ok
    intro field member
    rw [fields, List.mem_pair] at member
    rcases member with rfl | rfl
    · simp
    · rintro rfl
      exact absurd known (by decide)
  | conjunction each ok =>
    rw [all_of_conjunction ok, fields]
    simp
  | disjunction each ok =>
    rw [any_of_disjunction ok, fields]
    simp
  | not made =>
    rw [fields]
    simp

end Condition

theorem Rule.read_toJson {rule : Rule String} (made : rule.condition.Made) :
    Rule.read rule.toJson = rule := by
  have next := rule.next_toJson
  unfold Rule.read
  rw [next, Json.asText_string]
  have left : (rule.toJson.fields.filter (·.1 ≠ "Next")) = rule.condition.fields :=
    Json.filter_setField (Condition.ne_next_of_made made) _
  rw [left]
  exact congrArg (Rule.mk · rule.target) (Condition.read_toJson made)

namespace Entry

theorem lookup_references_none (e : Entry) (nested : List Json) {key : String}
    (describing : key ∈ Content.describing) : (e.references nested).lookup key = none := by
  have apart : ∀ used ∉ Content.describing, key ≠ used :=
    fun used free same => free (same ▸ describing)
  have onward : e.onward.lookup key = none :=
    e.lookup_onward_none (by simpa using ⟨apart _ (by decide), apart _ (by decide),
      apart _ (by decide), apart _ (by decide)⟩)
  unfold references
  cases e.content
  case choice => cases e.next <;> simp [Json.lookup_cons_of_ne, apart, Content.describing]
  case parallel => rw [Json.lookup_cons_of_ne (apart _ (by decide)), onward]
  case map =>
    rw [List.lookup_append, Json.lookup_each_of_ne (apart _ (by decide)), onward, Option.none_or]
  case task | pass | wait => exact onward
  case succeed | fail => rfl

theorem get_toJson (e : Entry) (nested : List Json) {key : String}
    (describing : key ∈ Content.describing) :
    (e.toJson nested).get key = ((e.content.fragment e.common).lookup key).getD .null := by
  rw [toJson, Json.get_object, List.lookup_append, e.lookup_references_none nested describing,
    Option.or_none]

theorem read_common (e : Entry) (nested : List Json) :
    CommonFields.read (e.toJson nested) = e.common := by
  unfold CommonFields.read
  rw [e.get_toJson nested (by decide), e.get_toJson nested (by decide),
    e.get_toJson nested (by decide)]
  cases e.content <;>
    simp [Content.fragment, Content.fields, WaitFields.given, List.lookup_append,
      Json.lookup_cons_of_ne, Json.lookup_optional_eq]

theorem type_toJson (e : Entry) (nested : List Json) :
    (e.toJson nested).get "Type" = .string e.content.type.name := by
  rw [e.get_toJson nested (by decide)]
  rfl

theorem find?_name (type : StateType) :
    StateType.all.find? (·.name = type.name) = some type := by
  cases type <;> decide

theorem choices_toJson {e : Entry} {rules : List (Rule String)}
    (content : e.content = .choice rules) (nested : List Json) :
    ((e.toJson nested).get "Choices").items = rules.map Rule.toJson := by
  rw [Json.get, e.field?_toJson_of_not_describing nested (by decide), references, content]
  rfl

theorem read_content {e : Entry}
    (made : ∀ rules, e.content = .choice rules → ∀ rule ∈ rules, rule.condition.Made)
    (nested : List Json) : Content.read (e.toJson nested) = some e.content := by
  unfold Content.read
  rw [e.type_toJson nested, Json.asText_string, find?_name, Option.map_some]
  cases content : e.content
  case choice rules =>
    simp only [Content.type, choices_toJson content, List.map_map, Option.some.injEq,
      Content.choice.injEq]
    exact (List.map_congr_left fun rule member =>
      Rule.read_toJson (made rules content rule member)).trans (List.map_id rules)
  case succeed => rfl
  all_goals
    simp only [Content.type]
    repeat rw [e.get_toJson nested (by decide)]
    simp [content, Content.fragment, Content.fields, WaitFields.given, List.lookup_append,
      Json.lookup_cons_of_ne, Json.lookup_optional_eq]

/-- Whether an entry shows where its state goes on, as all do but those of choices and of states
that end a path by themselves. -/
def Leads (e : Entry) : Prop :=
  match e.content with
  | .choice _ | .succeed | .fail _ => False
  | _ => True

theorem leads_of_canFail {e : Entry} (able : e.content.type.canFail = true) : e.Leads := by
  unfold Leads
  cases content : e.content <;> rw [content] at able <;> trivial

theorem lookup_references_onward {e : Entry} (leads : e.Leads) (nested : List Json) {key : String}
    (other : key ∉ ["Branches", "Iterator"]) :
    (e.references nested).lookup key = e.onward.lookup key := by
  have apart : key ≠ "Branches" ∧ key ≠ "Iterator" := by simpa using other
  unfold Leads at leads
  unfold references
  cases content : e.content <;> simp only [content] at leads ⊢
  case parallel => rw [Json.lookup_cons_of_ne apart.1]
  case map => rw [List.lookup_append, Json.lookup_each_of_ne apart.2, Option.none_or]

/-- An entry that does not show where its state goes on has no other fields than those of a choice
besides those that describe the state. -/
theorem lookup_references_of_not_leads {e : Entry} (ends : ¬ e.Leads) (nested : List Json)
    {key : String} (other : key ∉ ["Choices", "Default"]) :
    (e.references nested).lookup key = none := by
  have apart : key ≠ "Choices" ∧ key ≠ "Default" := by simpa using other
  unfold Leads at ends
  unfold references
  cases content : e.content <;> simp only [content, not_true_eq_false] at ends
  case choice => cases e.next <;> simp [Json.lookup_cons_of_ne, apart]
  all_goals rfl

theorem lookup_onward_end (e : Entry) :
    e.onward.lookup "End" = if e.next.isNone then some (.bool true) else none := by
  cases next : e.next with
  | none => simp [onward, next]
  | some name =>
    simp only [onward, next, List.cons_append]
    split <;> split <;> simp [Json.lookup_cons_of_ne]

theorem lookup_onward_retry (e : Entry) :
    ((e.onward.lookup "Retry").getD .null).items = e.retries.map Retry.toJson := by
  unfold onward
  cases e.next <;> cases e.retries <;> cases e.catches <;> simp [Json.lookup_cons_of_ne]

/-- The way out that an entry shows. -/
def way (e : Entry) : Way :=
  match e.content, e.next with
  | .succeed, _ | .fail _, _ => .nowhere
  | _, some name => .next name
  | .choice _, none => .nowhere
  | _, none => .stop

theorem read_way (e : Entry) (nested : List Json) : Way.read (e.toJson nested) = e.way := by
  unfold Way.read
  rw [e.field?_toJson_of_not_describing nested (by decide),
    e.field?_toJson_of_not_describing nested (by decide),
    e.field?_toJson_of_not_describing nested (by decide)]
  by_cases leads : e.Leads
  · rw [lookup_references_onward leads nested (by decide),
      lookup_references_onward leads nested (by decide),
      lookup_references_onward leads nested (by decide), e.lookup_onward_next, e.lookup_onward_end,
      e.lookup_onward_none (by decide)]
    unfold Leads at leads
    unfold way
    cases content : e.content <;> simp only [content] at leads <;> cases e.next <;> rfl
  · unfold Leads at leads
    unfold references way
    cases content : e.content <;> simp only [content, not_true_eq_false] at leads
    case choice => cases e.next <;> rfl
    all_goals rfl

/-- What an entry lists under a field is what it lists where it shows where its state goes on. -/
theorem items_toJson {α : Type} {e : Entry} {write : α → Json} {items : List α} {key : String}
    (own : key ∉ Content.describing ∧ key ∉ ["Branches", "Iterator"] ∧ key ∉ ["Choices", "Default"])
    (listed : ((e.onward.lookup key).getD .null).items = items.map write)
    (shown : e.Leads ∨ items = []) (nested : List Json) :
    ((e.toJson nested).get key).items = items.map write := by
  rw [Json.get, e.field?_toJson_of_not_describing nested own.1]
  by_cases leads : e.Leads
  · rw [lookup_references_onward leads nested own.2.1, listed]
  · rw [lookup_references_of_not_leads leads nested own.2.2, shown.resolve_left leads]
    rfl

theorem read_retries {e : Entry} (shown : e.Leads ∨ e.retries = []) (nested : List Json) :
    ((e.toJson nested).get "Retry").items.map Retry.read = e.retries := by
  rw [items_toJson (by decide) e.lookup_onward_retry shown, List.map_map]
  exact (List.map_congr_left fun retry _ => retry.read_toJson).trans (List.map_id _)

theorem read_catches {e : Entry} (shown : e.Leads ∨ e.catches = []) (nested : List Json) :
    ((e.toJson nested).get "Catch").items.map Catch.read = e.catches := by
  rw [items_toJson (by decide) e.lookup_onward_catch shown, List.map_map]
  exact (List.map_congr_left fun handler _ => handler.read_toJson).trans (List.map_id _)

/-- What there is to say of a state by its entry. -/
def summary (e : Entry) : Summary :=
  ⟨e.name, e.common, some e.content, e.way, e.retries, e.catches⟩

/-- Whether an entry loses nothing when it is written: it has conditions that can be made, and it
has retries and handlers only if it shows them. -/
structure Kept (e : Entry) : Prop where
  made : ∀ rules, e.content = .choice rules → ∀ rule ∈ rules, rule.condition.Made
  retries : e.Leads ∨ e.retries = []
  catches : e.Leads ∨ e.catches = []

theorem read_toJson {e : Entry} (kept : e.Kept) (nested : List Json) :
    Summary.read (e.name, e.toJson nested) = e.summary := by
  rw [Summary.read, summary]
  rw [e.read_common nested, read_content kept.made nested, e.read_way nested,
    read_retries kept.retries nested, read_catches kept.catches nested]

end Entry

theorem Heading.read_toJson (document : Document) :
    Heading.read document.toJson = document.info := by
  obtain ⟨⟨startAt, timeout⟩, entries⟩ := document
  rw [Document.toJson_node]
  cases timeout <;> simp [Heading.read, Json.lookup_cons_of_ne, Nested.info]

namespace Document

/-- Decoding undoes the writing of documents whose entries lose nothing. -/
theorem decode_toJson {document : Document} (fits : document.Fits)
    (kept : ∀ e ∈ document.preorder, e.Kept) :
    document.toJson.decode = document.map id Entry.summary := by
  induction document using Nested.induct with
  | step heading es ih =>
    rw [Json.decode, Json.tree_eq, Nested.map_node, Nested.map_node, Heading.read_toJson,
      entries_toJson, List.map_map, List.map_map]
    refine congrArg _ (List.map_congr_left fun e entry => ?_)
    obtain ⟨holds, inner⟩ := fits_node.mp fits e entry
    have top : e.1 ∈ (Nested.node heading es).preorder := by
      rw [Nested.preorder_node]
      exact List.mem_flatMap.mpr ⟨e, entry, List.mem_cons_self⟩
    simp only [Function.comp_apply]
    rw [Entry.read_toJson (kept e.1 top), Entry.inner_toJson e.1 (by rwa [List.length_map]),
      List.map_map, List.map_map]
    refine congrArg _ (List.map_congr_left fun d nested => ?_)
    refine ih e entry d nested (inner d nested) ?_
    intro r member
    apply kept
    rw [Nested.preorder_node]
    exact List.mem_flatMap.mpr ⟨e, entry,
      List.mem_cons_of_mem _ (List.mem_flatMap.mpr ⟨d, nested, member⟩)⟩

end Document
end Workflow
