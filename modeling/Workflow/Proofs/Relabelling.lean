import Workflow.Proofs.Abstraction
import Workflow.Proofs.Correspondence

/-!
Documents under other names. Names stand in a document as the keys of its states and where it says
at which state it starts and to which state a way out, a default, a rule or a handler leads. Putting
other names there, at any depth, and leaving the rest as it is makes of the document of a level the
one that the level has in a workspace that mirrors its states.
-/

namespace Workflow

/-- What a value within a document is there for. -/
inductive Place where
  | document
  | states
  | entry
  | link
  | name
  | other
  | each (place : Place)
deriving DecidableEq

namespace Place

/-- What the value of a field is there for. -/
def field : Place → String → Place
  | document, "StartAt" => name
  | document, "States" => states
  | states, _ => entry
  | entry, "Next" => name
  | entry, "Default" => name
  | entry, "Choices" => each link
  | entry, "Catch" => each link
  | entry, "Branches" => each document
  | entry, "Iterator" => document
  | link, "Next" => name
  | _, _ => other

def item : Place → Place
  | each place => place
  | _ => other

/-- The key of a field under other names. -/
def key (new : String → String) : Place → String → String
  | states, key => new key
  | _, key => key

theorem field_other (key : String) : other.field key = other := rfl

theorem field_describing {key : String} (member : key ∈ Content.describing) :
    entry.field key = other := by
  have all : ∀ key ∈ Content.describing, entry.field key = other := by decide
  exact all key member

end Place

namespace Json

variable (new : String → String)

mutual
/-- A value with other names where names stand. -/
def relabel : Place → Json → Json
  | .name, .string name => .string (new name)
  | place, .array items => .array (relabelItems place.item items)
  | place, .object fields => .object (relabelFields place fields)
  | _, value => value

def relabelItems (place : Place) : List Json → List Json
  | [] => []
  | item :: items => relabel place item :: relabelItems place items

def relabelFields (place : Place) : List (String × Json) → List (String × Json)
  | [] => []
  | (key, value) :: fields =>
    (place.key new key, relabel (place.field key) value) :: relabelFields place fields
end

def relabelField (place : Place) (field : String × Json) : String × Json :=
  (place.key new field.1, relabel new (place.field field.1) field.2)

theorem relabel_array (place : Place) (items : List Json) :
    relabel new place (.array items) = .array (items.map (relabel new place.item)) := by
  have each (place : Place) : relabelItems new place items = items.map (relabel new place) := by
    induction items with
    | nil => rfl
    | cons item items ih => rw [relabelItems, ih, List.map_cons]
  cases place <;> rw [relabel, each]

@[simp]
theorem relabel_each (place : Place) (items : List Json) :
    relabel new (.each place) (.array items) = .array (items.map (relabel new place)) :=
  relabel_array ..

theorem relabel_object (place : Place) (fields : List (String × Json)) :
    relabel new place (.object fields) = .object (fields.map (relabelField new place)) := by
  have each : relabelFields new place fields = fields.map (relabelField new place) := by
    induction fields with
    | nil => rfl
    | cons field fields ih => rw [relabelFields, ih, List.map_cons]; rfl
  cases place <;> rw [relabel, each]

@[simp]
theorem relabel_name (name : String) : relabel new .name (.string name) = .string (new name) := rfl

mutual
/-- Where no names stand nothing is replaced. -/
@[simp]
theorem relabel_other (value : Json) : relabel new .other value = value := by
  cases value with
  | array items => exact congrArg Json.array (relabelItems_other items)
  | object fields => exact congrArg Json.object (relabelFields_other fields)
  | null | bool | number | string => rfl

theorem relabelItems_other (items : List Json) : relabelItems new .other items = items := by
  match items with
  | [] => rfl
  | item :: items => rw [relabelItems, relabel_other, relabelItems_other]

theorem relabelFields_other (fields : List (String × Json)) :
    relabelFields new .other fields = fields := by
  match fields with
  | [] => rfl
  | (key, value) :: fields =>
    rw [relabelFields, relabelFields_other, Place.field_other, relabel_other]
    rfl
end

/-- A field in which no names stand stays as it is. -/
theorem relabelField_of_other {place : Place} {field : String × Json}
    (key : place.key new field.1 = field.1) (other : place.field field.1 = .other) :
    relabelField new place field = field := by
  rw [relabelField, key, other, relabel_other]

theorem relabelFields_optional {place : Place} {key : String} (value : Json)
    (kept : place.key new key = key) (other : place.field key = .other) :
    (optional key value).map (relabelField new place) = optional key value := by
  unfold optional
  split
  · rfl
  · rw [List.map_singleton, relabelField_of_other new kept other]

end Json

/-- A rule that leads elsewhere. -/
def Rule.map {α β : Type} (f : α → β) (rule : Rule α) : Rule β := ⟨rule.condition, f rule.target⟩

def Catch.map {α β : Type} (f : α → β) (handler : Catch α) : Catch β :=
  ⟨handler.errors, f handler.target, handler.resultPath⟩

variable (new : String → String)

@[simp]
theorem Rule.relabel_toJson (rule : Rule String) :
    rule.toJson.relabel new .link = (rule.map new).toJson := by
  obtain ⟨condition, target⟩ := rule
  rw [toJson, toJson, Json.relabel_object, map]
  congr 1
  cases condition with
  | compare path operator operand =>
    by_cases same : operator = "Next"
    · subst same
      rfl
    · simp [Condition.fields, Json.setField, same, Json.relabelField, Place.key, Place.field]
  | all | any | not =>
    simp [Condition.fields, Json.setField, Json.relabelField, Place.key, Place.field]

@[simp]
theorem Catch.relabel_toJson (handler : Catch String) :
    handler.toJson.relabel new .link = (handler.map new).toJson := by
  rw [toJson, toJson, Json.relabel_object, List.map_append,
    Json.relabelFields_optional new _ rfl rfl]
  simp [Json.relabelField, Place.key, Place.field, map]

def Content.relabel : Content → Content
  | .choice rules => .choice (rules.map (Rule.map new))
  | content => content

theorem Content.type_relabel (content : Content) : (content.relabel new).type = content.type := by
  cases content <;> rfl

/-- An entry under another name that leads to states under other names. -/
def Entry.relabel (e : Entry) : Entry :=
  { e with
    name := new e.name
    content := e.content.relabel new
    next := e.next.map new
    catches := e.catches.map (Catch.map new) }

theorem Content.relabel_fragment (content : Content) (common : CommonFields) :
    (content.fragment common).map (Json.relabelField new .entry) =
      (content.relabel new).fragment common := by
  have kept : ∀ field ∈ content.fragment common, Json.relabelField new .entry field = field := by
    intro field member
    have described : field.1 ∈ Content.describing := by
      by_contra other
      have absent := content.lookup_fragment_none common other
      simpa using List.lookup_eq_none_iff.mp absent field member
    exact Json.relabelField_of_other new rfl (Place.field_describing described)
  rw [List.map_congr_left kept, List.map_id']
  cases content <;> rfl

namespace Entry

theorem relabel_onward (e : Entry) :
    e.onward.map (Json.relabelField new .entry) = (e.relabel new).onward := by
  obtain ⟨name, common, content, next, retries, catches⟩ := e
  simp only [onward, relabel, List.map_append, List.map_cons, List.isEmpty_map]
  cases next <;> cases retries <;> cases catches <;>
    simp [Json.relabelField, Place.key, Place.field]

theorem relabel_references (e : Entry) (nested : List Json) :
    (e.references nested).map (Json.relabelField new .entry) =
      (e.relabel new).references (nested.map (Json.relabel new .document)) := by
  have onward := e.relabel_onward new
  have shown : (e.relabel new).content = e.content.relabel new := rfl
  have way : (e.relabel new).next = e.next.map new := rfl
  rw [references, references, shown, way]
  cases e.content with
  | choice rules =>
    cases e.next <;> simp [Content.relabel, Json.relabelField, Place.key, Place.field]
  | parallel fields =>
    simp [Content.relabel, onward, Json.relabelField, Place.key, Place.field]
  | map fields =>
    simp [Content.relabel, onward, Json.relabelField, Place.key, Place.field, Function.comp_def]
  | task | pass | wait => exact onward
  | succeed | fail => rfl

/-- Other names in what is written of an entry are those of the entry under other names. -/
theorem relabel_toJson (e : Entry) (nested : List Json) :
    (e.toJson nested).relabel new .entry =
      (e.relabel new).toJson (nested.map (Json.relabel new .document)) := by
  rw [toJson, toJson, Json.relabel_object, List.map_append, relabel_references,
    e.content.relabel_fragment new e.common]
  rfl

/-- Of an entry that chooses only the rules and the default are written. -/
theorem toJson_congr {e e' : Entry} (content : e'.content = e.content)
    (common : e'.common = e.common) (next : e'.next = e.next)
    (handled : e.content.type ≠ .choice → e'.retries = e.retries ∧ e'.catches = e.catches)
    (nested : List Json) : e'.toJson nested = e.toJson nested := by
  have onward (other : e.content.type ≠ .choice) : e'.onward = e.onward := by
    obtain ⟨retries, catches⟩ := handled other
    rw [Entry.onward, Entry.onward, next, retries, catches]
  rw [toJson, toJson, references, references, content, common]
  cases shown : e.content with
  | choice => rw [next]
  | task | pass | wait | parallel | map =>
    simp only [onward (by simp [shown, Content.type])]
  | succeed | fail => rfl

end Entry

theorem Document.relabel_toJson (heading : Heading) (es : List (Entry × List Document)) :
    (Document.toJson (.node heading es)).relabel new .document =
      .object ([("StartAt", .string (new heading.startAt)),
        ("States", .object (es.map fun e =>
          (new e.1.name, (e.1.toJson (e.2.map Document.toJson)).relabel new .entry)))] ++
        (heading.timeout.map fun n => ("TimeoutSeconds", Json.nat n)).toList) := by
  rw [Document.toJson_node, Json.relabel_object]
  cases heading.timeout <;>
    simp [Json.relabelField, Json.relabel_object, Place.key, Place.field, Function.comp_def]

namespace Workspace

variable {w v : Workspace} {states : List StateId} {new : String → String}

theorem Mirrors.content_eq (mirrors : w.Mirrors v states new) {s : StateId} (known : s ∈ states) :
    v.content? (v.state s) = (w.content? (w.state s)).map (Content.relabel new) := by
  have choice {rules : List (Rule Target)} {tails : List StateId}
      (kind : (w.state s).kind = .choice rules tails) :
      rules.map (Rule.map v.nameOf) = (rules.map (Rule.map w.nameOf)).map (Rule.map new) := by
    rw [List.map_map]
    refine List.map_congr_left fun rule listed => ?_
    have leaves : (.choices, rule.target) ∈ (w.state s).outgoing := by
      rw [State.outgoing, kind]
      exact List.mem_append_left _ (List.mem_map_of_mem listed)
    simp only [Function.comp_apply, Rule.map, mirrors.leads s known _ leaves]
  rw [content?, content?]
  rcases (mirrors.alike s known).kind_cases with same | ⟨rules, tails, tails', here, there⟩
  · rw [same]
    cases kind : (w.state s).kind with
    | choice rules tails => exact congrArg (some ∘ Content.choice) (choice kind)
    | _ => rfl
  · rw [here, there]
    exact congrArg (some ∘ Content.choice) (choice here)

/-- Where a state leads on, it leads to the same under its new name. -/
theorem Mirrors.next_eq (mirrors : w.Mirrors v states new) {s : StateId} (known : s ∈ states) :
    (v.state s).onward.map v.nameOf = ((w.state s).onward.map w.nameOf).map new := by
  rw [State.onward_of_exit (mirrors.alike s known).exit]
  cases way : (w.state s).onward with
  | none => rfl
  | some target =>
    have leaves : ∃ field, (field, target) ∈ (w.state s).outgoing := by
      rw [State.outgoing, way]
      cases (w.state s).kind <;> simp
    obtain ⟨field, leaves⟩ := leaves
    exact congrArg some (mirrors.leads s known _ leaves)

theorem Mirrors.catches_eq (mirrors : w.Mirrors v states new) {s : StateId} (known : s ∈ states)
    (other : (w.state s).type? ≠ some .choice) :
    (v.state s).catches.map (Catch.map v.nameOf) =
      ((w.state s).catches.map (Catch.map w.nameOf)).map (Catch.map new) := by
  rw [(mirrors.alike s known).catches, List.map_map]
  refine List.map_congr_left fun handler listed => ?_
  have leaves : (.catches, handler.target) ∈ (w.state s).outgoing := by
    rw [State.outgoing]
    rw [State.type?] at other
    cases kind : (w.state s).kind with
    | choice => simp [kind, Kind.type?] at other
    | _ => exact List.mem_append_right _ (List.mem_map_of_mem listed)
  simp only [Function.comp_apply, Catch.map, mirrors.leads s known _ leaves]

/-- The entry of a state is that of the state which it mirrors, under the new names. -/
theorem Mirrors.entry (mirrors : w.Mirrors v states new) {m : Member} {r : Entry}
    (known : m.state ∈ states) (ok : w.entry m = .ok r) :
    ∃ r', v.entry ⟨new m.name, m.state⟩ = .ok r' ∧ r'.name = new r.name ∧
      ∀ nested, r'.toJson (nested.map (Json.relabel new .document)) =
        (r.toJson nested).relabel new .entry := by
  obtain ⟨content, named, next, catches⟩ := entry_eq_ok ok
  have alike := mirrors.alike _ known
  have content' : v.content? (v.state m.state) = some (r.content.relabel new) := by
    rw [mirrors.content_eq known, content]
    rfl
  refine ⟨_, by simp only [Workspace.entry, content']; rfl, congrArg new named.symm, ?_⟩
  intro nested
  rw [Entry.relabel_toJson]
  refine Entry.toJson_congr (e := r.relabel new) ?_ ?_ ?_ ?_ _
  · rfl
  · rw [eq_of_entry ok]
    exact alike.common
  · exact (mirrors.next_eq known).trans (congrArg _ next.symm)
  · intro other
    have other : (w.state m.state).type? ≠ some .choice := by
      rw [type_of_content? content, ← r.content.type_relabel new]
      exact fun choice => other (Option.some.inj choice)
    constructor
    · rw [eq_of_entry ok]
      exact alike.retries
    · refine (mirrors.catches_eq known other).trans ?_
      rw [eq_of_entry ok]
      rfl

/-- The document of a level is that of the level which it mirrors, under the new names. -/
theorem Mirrors.document (mirrors : w.Mirrors v states new) {level level' : Level}
    {document : Document} (same : level'.under id = level.under new)
    (sound : ∀ l ∈ level.levels, w.Sound l) (inside : ∀ s ∈ level.allStates, s ∈ states)
    (ok : w.document level = .ok document) :
    ∃ document', v.document level' = .ok document' ∧
      document'.toJson = document.toJson.relabel new .document := by
  induction level using Nested.induct generalizing level' document with
  | step header members ih =>
    obtain ⟨header', members'⟩ := level'
    rw [Level.under_node, Level.under_node] at same
    obtain ⟨headers, entries⟩ := Nested.node.inj same
    obtain ⟨start, timeout⟩ := Prod.mk.inj headers
    obtain ⟨top, nested⟩ := Nested.forall_mem_levels_node.mp sound
    obtain ⟨es, each, rfl⟩ := document_node ok
    have listed : ∀ e ∈ members, e.1.state ∈ states ∧
        ∀ l ∈ e.2, ∀ s ∈ Level.allStates l, s ∈ states := by
      intro e entry
      rw [Level.allStates_node] at inside
      have here {s : StateId} (member : s ∈ e.1.state :: e.2.flatMap Level.allStates) :
          s ∈ states := inside s (List.mem_flatMap.mpr ⟨e, entry, member⟩)
      exact ⟨here List.mem_cons_self, fun l within s below =>
        here (List.mem_cons_of_mem _ (List.mem_flatMap.mpr ⟨l, within, below⟩))⟩
    have first : header.start ∈ states := by
      obtain ⟨e, entry, same⟩ := Level.mem_states.mp top.start
      exact same ▸ (listed e entry).1
    have results : ∃ es', List.Forall₂ v.Rendered members' es' ∧
        List.Forall₂ (fun r r' => (r'.1.name, r'.1.toJson (r'.2.map Document.toJson)) =
          (new r.1.name, (r.1.toJson (r.2.map Document.toJson)).relabel new .entry)) es es' := by
      refine Outcome.exists_results ((List.forall₂_and_left _ _).mpr
        ⟨fun e entry => entry, Level.forall₂_members entries⟩) each ?_
      rintro e e' r ⟨entry, shown, levels⟩ rendered
      obtain ⟨known, below⟩ := listed e entry
      obtain ⟨r', rendered', named, written⟩ := mirrors.entry known rendered.entry
      obtain ⟨ds, nested', relabelled⟩ := Outcome.exists_results ((List.forall₂_and_left _ _).mpr
        ⟨fun l within => within, Level.forall₂_levels levels⟩) rendered.nested
        fun l l' d ⟨within, same⟩ ok =>
          ih e entry l within same (nested e entry l within) (below l within) ok
      refine ⟨(r', ds), ⟨shown ▸ rendered', nested'⟩, ?_⟩
      have inner : ds.map Document.toJson =
          (r.2.map Document.toJson).map (Json.relabel new .document) := by
        rw [List.map_map]
        exact (Outcome.map_eq_of_forall₂ relabelled fun _ _ same => same.symm).symm
      simp only [named, inner, written]
    obtain ⟨es', each', same⟩ := results
    refine ⟨_, document_of_rendered each', ?_⟩
    have shown := Outcome.map_eq_of_forall₂ same fun _ _ same => same.symm
    rw [Document.toJson_node, Document.relabel_toJson, ← shown]
    simp only [heading, start, timeout, mirrors.named _ first]

end Workspace
end Workflow
