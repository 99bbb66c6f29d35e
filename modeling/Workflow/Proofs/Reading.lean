import Mathlib.Data.List.Nodup
import Workflow.Graph.Document
import Workflow.Json.Access

/-!
Documents as they are read: as values, without the graph that they were made from. A document has
entries under their names, an entry has links to names and documents of its own, and so a document
is a tree of documents. What is written as one of these is read as the same.
-/

namespace Workflow

namespace Json

/-- The value of a field, `null` where there is none. -/
def get (key : String) (value : Json) : Json := (value.field? key).getD .null

@[simp]
theorem field?_object (key : String) (fields : List (String × Json)) :
    (object fields).field? key = fields.lookup key := rfl

@[simp]
theorem get_object (key : String) (fields : List (String × Json)) :
    (object fields).get key = (fields.lookup key).getD .null := rfl

def items : Json → List Json
  | .array items => items
  | _ => []

def fields : Json → List (String × Json)
  | .object fields => fields
  | _ => []

@[simp]
theorem items_array (items : List Json) : (Json.array items).items = items := rfl

@[simp]
theorem items_null : Json.null.items = [] := rfl

def entries (document : Json) : List (String × Json) := (document.get "States").fields

def keys (document : Json) : List String := document.entries.map (·.1)

/-- The documents of an entry. -/
def inner (entry : Json) : List Json :=
  (entry.get "Branches").items ++ (entry.field? "Iterator").toList

/-- Where an entry leads, by the field that says so. -/
def links (entry : Json) : List (Field × Json) :=
  ((entry.get "Choices").items.map fun rule => (.choices, rule.get "Next")) ++
    ((entry.field? "Default").toList.map (.default, ·)) ++
    ((entry.field? "Next").toList.map (.next, ·)) ++
    ((entry.get "Catch").items.map fun handler => (.catches, handler.get "Next"))

theorem links_congr {entry other : Json}
    (same : ∀ key ∈ ["Choices", "Default", "Next", "Catch"], entry.field? key = other.field? key) :
    entry.links = other.links := by
  simp only [List.forall_mem_cons] at same
  obtain ⟨choices, default, next, handlers, -⟩ := same
  rw [links, links, get, get, get, get, choices, default, next, handlers]

theorem containers_lt_of_mem_fields {field : String × Json} {value : Json}
    (member : field ∈ value.fields) : field.2.containers < value.containers := by
  cases value with
  | object fields =>
    have : field.2.containers ≤ fieldContainers fields := containers_le_fieldContainers member
    rw [containers]
    omega
  | _ => cases member

theorem containers_lt_of_mem_items {item value : Json} (member : item ∈ value.items) :
    item.containers < value.containers := by
  cases value with
  | array items =>
    have : item.containers ≤ itemContainers items := containers_le_itemContainers member
    rw [containers]
    omega
  | _ => cases member

theorem containers_get_le (key : String) (value : Json) :
    (value.get key).containers ≤ value.containers := by
  unfold get
  cases found : value.field? key with
  | none => exact Nat.zero_le _
  | some part => exact Nat.le_of_lt (containers_field?_lt found)

theorem containers_lt_of_mem_entries {entry : String × Json} {document : Json}
    (member : entry ∈ document.entries) : entry.2.containers < document.containers :=
  Nat.lt_of_lt_of_le (containers_lt_of_mem_fields member) (containers_get_le "States" document)

theorem containers_lt_of_mem_inner {entry document : Json} (member : document ∈ entry.inner) :
    document.containers < entry.containers := by
  rcases List.mem_append.mp member with branch | iterator
  · exact Nat.lt_of_lt_of_le (containers_lt_of_mem_items branch)
      (containers_get_le "Branches" entry)
  · exact containers_field?_lt (Option.mem_toList.mp iterator)

/-- A document with its entries and theirs. -/
def tree (document : Json) : Nested Json (String × Json) :=
  .node document (document.entries.attach.map fun ⟨entry, _⟩ =>
    (entry, entry.2.inner.attach.map fun ⟨inner, _⟩ => tree inner))
termination_by document.containers
decreasing_by
  exact Nat.lt_trans (containers_lt_of_mem_inner ‹_›) (containers_lt_of_mem_entries ‹_›)

theorem tree_eq (document : Json) :
    document.tree = .node document
      (document.entries.map fun entry => (entry, entry.2.inner.map tree)) := by
  rw [tree]
  simp only [List.map_subtype, List.unattach_attach]

/-- A document and all documents in it at any depth. -/
def documents (document : Json) : List Json := document.tree.levels.map Nested.info

/-- The names of all entries at any depth, each before those of its own documents. -/
def names (document : Json) : List String := document.tree.preorder.map (·.1)

theorem documents_eq (document : Json) :
    document.documents =
      document :: document.entries.flatMap fun entry => entry.2.inner.flatMap documents := by
  simp only [documents, tree_eq document, Nested.levels_node, List.map_cons, List.map_flatMap,
    List.flatMap_map]
  rfl

theorem names_eq (document : Json) :
    document.names =
      document.entries.flatMap fun entry => entry.1 :: entry.2.inner.flatMap names := by
  simp only [names, tree_eq document, Nested.preorder_node, List.map_flatMap, List.flatMap_map,
    List.map_cons]
  rfl

theorem lookup_cons_of_ne {key other : String} {value : Json} {fields : List (String × Json)}
    (different : other ≠ key) : ((key, value) :: fields).lookup other = fields.lookup other := by
  rw [List.lookup_cons, beq_eq_false_iff_ne.mpr different]

theorem lookup_optional (key other : String) (value : Json) (different : other ≠ key) :
    (optional key value).lookup other = none := by
  unfold optional
  split <;> simp [different]

theorem lookup_each_of_ne {key other : String} {values : List Json} (different : key ≠ other) :
    (values.map fun value => (other, value)).lookup key = none := by
  apply List.lookup_eq_none_iff.mpr
  intro field member
  obtain ⟨value, -, rfl⟩ := List.mem_map.mp member
  simpa using different

theorem lookup_eq_some_iff_mem {fields : List (String × Json)} (distinct : (fields.map (·.1)).Nodup)
    {key : String} {value : Json} : fields.lookup key = some value ↔ (key, value) ∈ fields := by
  refine ⟨mem_of_lookup, fun member => ?_⟩
  cases found : fields.lookup key with
  | none =>
    have absent := List.lookup_eq_none_iff.mp found _ member
    simp at absent
  | some other =>
    have same := List.inj_on_of_nodup_map distinct (mem_of_lookup found) member rfl
    rw [(Prod.mk.inj same).2]

theorem lookup_setField (fields : List (String × Json)) (key : String) (value : Json) :
    (setField fields key value).lookup key = some value := by
  induction fields with
  | nil => simp [setField]
  | cons field fields ih =>
    obtain ⟨other, old⟩ := field
    rw [setField]
    split
    case isTrue same => rw [same, List.lookup_cons_self]
    case isFalse different => rw [lookup_cons_of_ne (Ne.symm different), ih]

end Json

theorem Rule.next_toJson (rule : Rule String) : rule.toJson.get "Next" = .string rule.target := by
  simp [Rule.toJson, Json.get, Json.field?, Json.lookup_setField]

theorem Catch.next_toJson (handler : Catch String) :
    handler.toJson.get "Next" = .string handler.target := rfl

/-- The fields that say where an entry leads and what runs in it. -/
def Content.linking : List String :=
  ["Choices", "Default", "Next", "Catch", "Branches", "Iterator"]

/-- The fields that describe a state by itself. -/
def Content.describing : List String :=
  ["Type", "Comment", "InputPath", "OutputPath", "Resource", "Parameters", "ResultPath",
    "TimeoutSeconds", "HeartbeatSeconds", "Seconds", "Timestamp", "SecondsPath", "TimestampPath",
    "ItemsPath", "MaxConcurrency", "Result", "Error", "Cause"]

theorem Content.lookup_fragment_none (content : Content) (common : CommonFields) {key : String}
    (other : key ∉ Content.describing) : (content.fragment common).lookup key = none := by
  simp only [Content.describing, List.mem_cons, not_or] at other
  cases content <;>
    simp [fragment, fields, WaitFields.given, List.lookup_append, Json.lookup_cons_of_ne,
      Json.lookup_optional, other]

namespace Entry

theorem field?_toJson_of_not_describing (e : Entry) (nested : List Json) {key : String}
    (other : key ∉ Content.describing) :
    (e.toJson nested).field? key = (e.references nested).lookup key := by
  rw [toJson, Json.field?_object, List.lookup_append,
    e.content.lookup_fragment_none e.common other, Option.none_or]

theorem field?_toJson (e : Entry) (nested : List Json) {key : String}
    (linking : key ∈ Content.linking) :
    (e.toJson nested).field? key = (e.references nested).lookup key := by
  have apart : ∀ key ∈ Content.linking, key ∉ Content.describing := by decide
  exact e.field?_toJson_of_not_describing nested (apart key linking)

theorem lookup_onward_next (e : Entry) : e.onward.lookup "Next" = e.next.map Json.string := by
  cases next : e.next with
  | none =>
    simp only [onward, next, List.cons_append]
    split <;> split <;> simp [Json.lookup_cons_of_ne]
  | some name => simp [onward, next]

theorem lookup_onward_catch (e : Entry) :
    ((e.onward.lookup "Catch").getD .null).items = e.catches.map Catch.toJson := by
  cases catches : e.catches with
  | nil =>
    simp only [onward, catches]
    split <;> split <;> simp [Json.lookup_cons_of_ne, Json.items]
  | cons first rest =>
    simp only [onward, catches]
    split <;> split <;> simp [Json.lookup_cons_of_ne, Json.items]

theorem lookup_onward_none (e : Entry) {key : String}
    (other : key ∉ ["Next", "End", "Retry", "Catch"]) : e.onward.lookup key = none := by
  have apart : ∀ used ∈ ["Next", "End", "Retry", "Catch"], key ≠ used :=
    fun used member same => other (same ▸ member)
  simp only [onward]
  split <;> split <;> split <;> simp [Json.lookup_cons_of_ne, apart]

theorem links_toJson_eq (e : Entry) (nested : List Json) :
    (e.toJson nested).links = (Json.object (e.references nested)).links :=
  Json.links_congr fun _ linking =>
    e.field?_toJson nested (List.mem_of_mem_take (i := 4) linking)

/-- Where the way out and the handlers of an entry lead. -/
def onwardLinks (e : Entry) : List (Field × String) :=
  (e.next.map (Field.next, ·)).toList ++ e.catches.map fun handler => (.catches, handler.target)

/-- Where an entry leads. -/
def links (e : Entry) : List (Field × String) :=
  match e.content with
  | .choice rules =>
    rules.map (fun rule => (.choices, rule.target)) ++ (e.next.map (Field.default, ·)).toList
  | .succeed | .fail _ => []
  | _ => e.onwardLinks

theorem links_onward (e : Entry) (before : List (String × Json))
    (other : ∀ field ∈ before, field.1 ∉ ["Choices", "Default", "Next", "Catch"]) :
    (Json.object (before ++ e.onward)).links =
      e.onwardLinks.map fun link => (link.1, .string link.2) := by
  have skip : (Json.object (before ++ e.onward)).links = (Json.object e.onward).links := by
    refine Json.links_congr fun key linking => ?_
    have absent : before.lookup key = none := by
      refine List.lookup_eq_none_iff.mpr fun field member => ?_
      simpa using fun same : key = field.1 => other field member (same ▸ linking)
    rw [Json.field?_object, Json.field?_object, List.lookup_append, absent, Option.none_or]
  rw [skip, Json.links, Json.get_object, Json.get_object, Json.field?_object, Json.field?_object,
    lookup_onward_none e (by decide), lookup_onward_none e (by decide), lookup_onward_next,
    lookup_onward_catch]
  cases next : e.next <;> simp [onwardLinks, next, Catch.next_toJson, Function.comp_def]

theorem links_toJson (e : Entry) (nested : List Json) :
    (e.toJson nested).links = e.links.map fun link => (link.1, .string link.2) := by
  rw [links_toJson_eq, references, links]
  cases e.content
  case choice rules =>
    cases e.next <;> simp [Json.links, Json.lookup_cons_of_ne, Rule.next_toJson]
  case succeed | fail => rfl
  case parallel => exact e.links_onward [_] (by simp)
  case map => exact e.links_onward _ (by simp)
  case task | pass | wait => exact e.links_onward [] (by simp)

/-- How many documents an entry holds: a parallel state any number, a map state one, and states that
run nothing none. -/
def Holds (e : Entry) (count : Nat) : Prop :=
  match e.content with
  | .parallel _ => True
  | .map _ => count = 1
  | _ => count = 0

/-- How many documents an entry holds depends on its type alone. -/
theorem holds_iff (e : Entry) (count : Nat) : e.Holds count ↔
    match e.content.type with
    | .parallel => True
    | .map => count = 1
    | _ => count = 0 := by
  unfold Holds
  cases e.content <;> rfl

theorem inner_toJson (e : Entry) {nested : List Json} (holds : e.Holds nested.length) :
    (e.toJson nested).inner = nested := by
  rw [Json.inner, Json.get, field?_toJson e nested (by decide), field?_toJson e nested (by decide)]
  unfold Holds at holds
  unfold references
  cases content : e.content <;> rw [content] at holds
  case parallel => simp [Json.lookup_cons_of_ne, lookup_onward_none]
  case map =>
    obtain ⟨document, rfl⟩ := List.length_eq_one_iff.mp holds
    simp [Json.lookup_cons_of_ne, lookup_onward_none]
  all_goals
    obtain rfl := List.length_eq_zero_iff.mp holds
  case choice => cases e.next <;> simp [Json.lookup_cons_of_ne]
  all_goals simp [lookup_onward_none]

end Entry

namespace Document

theorem toJson_node (heading : Heading) (es : List (Entry × List Document)) :
    toJson (.node heading es) =
      .object ([("StartAt", .string heading.startAt),
        ("States", .object (es.map fun e => (e.1.name, e.1.toJson (e.2.map toJson))))] ++
        (heading.timeout.map fun n => ("TimeoutSeconds", Json.nat n)).toList) := by
  rw [toJson, Nested.fold_node]
  simp only [List.map_map, Function.comp_def]

theorem startAt_toJson (document : Document) :
    document.toJson.field? "StartAt" = some (.string document.info.startAt) := by
  obtain ⟨heading, es⟩ := document
  rw [toJson_node]
  rfl

theorem entries_toJson (document : Document) :
    document.toJson.entries =
      document.entries.map fun e => (e.1.name, e.1.toJson (e.2.map toJson)) := by
  obtain ⟨heading, es⟩ := document
  rw [toJson_node]
  rfl

theorem keys_toJson (document : Document) :
    document.toJson.keys = document.entries.map (·.1.name) := by
  rw [Json.keys, entries_toJson, List.map_map]
  rfl

/-- Every entry of a document, at any depth, holds as many documents as one of its kind can. -/
def Fits (document : Document) : Prop :=
  ∀ d ∈ document.levels, ∀ e ∈ d.entries, e.1.Holds e.2.length

theorem fits_node {heading : Heading} {es : List (Entry × List Document)} :
    Fits (.node heading es) ↔
      ∀ e ∈ es, e.1.Holds e.2.length ∧ ∀ d ∈ e.2, Fits d := by
  rw [Fits, Nested.forall_mem_levels_node]
  exact ⟨fun ⟨top, nested⟩ e entry => ⟨top e entry, nested e entry⟩,
    fun fits => ⟨fun e entry => (fits e entry).1, fun e entry => (fits e entry).2⟩⟩

theorem documents_toJson {document : Document} (fits : document.Fits) :
    document.toJson.documents = document.levels.map toJson := by
  induction document using Nested.induct with
  | step heading es ih =>
    rw [Json.documents_eq, Nested.levels_node, List.map_cons, entries_toJson, List.flatMap_map,
      List.map_flatMap]
    refine congrArg _ (List.flatMap_congr fun e entry => ?_)
    obtain ⟨holds, nested⟩ := fits_node.mp fits e entry
    rw [Entry.inner_toJson e.1 (by rwa [List.length_map]), List.flatMap_map, List.map_flatMap]
    exact List.flatMap_congr fun d within => ih e entry d within (nested d within)

theorem names_toJson {document : Document} (fits : document.Fits) :
    document.toJson.names = document.preorder.map (·.name) := by
  induction document using Nested.induct with
  | step heading es ih =>
    rw [Json.names_eq, Nested.preorder_node, entries_toJson, List.flatMap_map, List.map_flatMap]
    refine List.flatMap_congr fun e entry => ?_
    obtain ⟨holds, nested⟩ := fits_node.mp fits e entry
    rw [Entry.inner_toJson e.1 (by rwa [List.length_map]), List.flatMap_map, List.map_cons,
      List.map_flatMap]
    exact congrArg _ (List.flatMap_congr fun d within => ih e entry d within (nested d within))

end Document
end Workflow
