import Workflow.Proofs.Abstraction
import Workflow.Proofs.Ranges

/-!
What documents inherit. A property that lists and objects have if what they hold has it, objects
with keys of a certain kind, holds of a document if it holds of all values that were given for its
states: names, counts and marks are written besides, and the keys of an entry are distinct.
-/

namespace Workflow

namespace Json

/-- A property of values that lists and objects take over from what they hold. Distinct keys are of
the kind that objects need, and keys of that kind may be joined by another. -/
structure Inherited (P : Json → Prop) (K : List String → Prop) : Prop where
  string (s : String) : P (.string s)
  bool (b : Bool) : P (.bool b)
  nat (n : Nat) : P (.nat n)
  array {items : List Json} : P (.array items) ↔ ∀ item ∈ items, P item
  object {fields : List (String × Json)} :
    P (.object fields) ↔ K (fields.map (·.1)) ∧ ∀ field ∈ fields, P field.2
  distinct {keys : List String} : keys.Nodup → K keys
  join {keys : List String} {key : String} : key ∉ keys → K keys → K (keys ++ [key])

theorem mem_setField {fields : List (String × Json)} {key : String} {value : Json}
    {field : String × Json} (member : field ∈ setField fields key value) :
    field ∈ fields ∨ field.2 = value := by
  induction fields with
  | nil => exact .inr (by rw [List.mem_singleton.mp member])
  | cons first rest ih =>
    obtain ⟨other, old⟩ := first
    rw [setField] at member
    split at member
    · rcases List.mem_cons.mp member with rfl | later
      · exact .inr rfl
      · exact .inl (List.mem_cons_of_mem _ later)
    · rcases List.mem_cons.mp member with rfl | later
      · exact .inl List.mem_cons_self
      · exact (ih later).imp_left (List.mem_cons_of_mem _)

theorem keys_setField (fields : List (String × Json)) (key : String) (value : Json) :
    (setField fields key value).map (·.1) =
      if key ∈ fields.map (·.1) then fields.map (·.1) else fields.map (·.1) ++ [key] := by
  induction fields with
  | nil => rfl
  | cons field fields ih =>
    obtain ⟨other, old⟩ := field
    rw [setField]
    split
    case isTrue same => simp [same]
    case isFalse different =>
      have apart : key ≠ other := Ne.symm different
      simp only [List.map_cons, ih, List.mem_cons, apart, false_or]
      split <;> rfl

theorem forall_optional {P : Json → Prop} {key : String} {value : Json} (given : P value) :
    ∀ field ∈ optional key value, P field.2 := by
  intro field member
  obtain ⟨-, rfl⟩ := mem_optional.mp member
  exact given

theorem keys_optional (key : String) (value : Json) :
    ((optional key value).map (·.1)).Sublist [key] := by
  unfold optional
  split <;> simp

end Json

/-- What was given for a state by its kind. -/
def Kind.given : Kind → List Json
  | .task resource f =>
    [resource.arn, f.parameters, f.resultPath, f.timeoutSeconds, f.heartbeatSeconds]
  | .pass f => [f.parameters, f.result, f.resultPath]
  | .wait f => [f.seconds, f.timestamp, f.secondsPath, f.timestampPath]
  | .choice rules _ => rules.map (·.condition.toJson)
  | .parallel f _ => [f.parameters, f.resultPath]
  | .map f _ => [f.itemsPath, f.maxConcurrency, f.parameters, f.resultPath]
  | .fail f => [f.error, f.cause]
  | .succeed | .plain | .unbound => []

/-- The values that were given for a state. -/
def State.given (s : State) : List Json :=
  [s.common.comment, s.common.inputPath, s.common.outputPath] ++ s.kind.given ++
    (s.retries.flatMap fun r => .number r.backoffRate :: r.errors) ++
    s.catches.flatMap fun c => c.resultPath :: c.errors

/-- The keys that the fields of a kind can have, in their order. -/
def Content.keys : List String :=
  ["Resource", "ItemsPath", "MaxConcurrency", "Parameters", "Result", "ResultPath",
    "TimeoutSeconds", "HeartbeatSeconds", "Seconds", "Timestamp", "SecondsPath", "TimestampPath",
    "Error", "Cause"]

theorem Content.keys_fields (content : Content) :
    (content.fields.map (·.1)).Sublist Content.keys := by
  have optional := Json.keys_optional
  cases content with
  | choice | succeed => exact List.nil_sublist _
  | task =>
    simp only [fields, List.map_append, List.map_cons]
    exact (((((optional _ _).cons_cons _).append (optional _ _)).append (optional _ _)).append
      (optional _ _)).trans (by decide)
  | pass =>
    simp only [fields, List.map_append]
    exact (((optional _ _).append (optional _ _)).append (optional _ _)).trans (by decide)
  | wait | map =>
    simp only [fields, WaitFields.given, List.map_append]
    exact ((((optional _ _).append (optional _ _)).append (optional _ _)).append
      (optional _ _)).trans (by decide)
  | parallel | fail =>
    simp only [fields, List.map_append]
    exact ((optional _ _).append (optional _ _)).trans (by decide)

namespace Entry

/-- The keys that an entry can have, in their order. -/
def keys : List String :=
  ["Type", "Comment"] ++ Content.keys ++ ["InputPath", "OutputPath", "Choices", "Default",
    "Branches", "Iterator", "Next", "End", "Retry", "Catch"]

variable (e : Entry)

theorem keys_fragment :
    ((e.content.fragment e.common).map (·.1)).Sublist
      (["Type", "Comment"] ++ Content.keys ++ ["InputPath"] ++ ["OutputPath"]) := by
  have optional := Json.keys_optional
  simp only [Content.fragment, List.map_append, List.map_cons]
  exact ((((optional _ _).cons_cons _).append e.content.keys_fields).append (optional _ _)).append
    (optional _ _)

theorem keys_onward : (e.onward.map (·.1)).Sublist ["Next", "End", "Retry", "Catch"] := by
  have listed {α : Type} (items : List α) (key : String) (value : Json) :
      ((if items.isEmpty then [] else [(key, value)]).map (·.1)).Sublist [key] := by
    split <;> simp
  have next : ["Next"].Sublist ["Next", "End"] := by simp
  have stop : ["End"].Sublist ["Next", "End"] := by simp
  simp only [onward, List.map_append, List.map_cons]
  cases e.next with
  | some => exact (next.append (listed _ _ _)).append (listed _ _ _)
  | none => exact (stop.append (listed _ _ _)).append (listed _ _ _)

theorem keys_references {nested : List Json} (holds : e.Holds nested.length) :
    ((e.references nested).map (·.1)).Sublist
      ["Choices", "Default", "Branches", "Iterator", "Next", "End", "Retry", "Catch"] := by
  have onward := e.keys_onward
  unfold Holds at holds
  unfold references
  cases content : e.content <;> rw [content] at holds
  case choice => cases e.next <;> simp
  case succeed | fail => exact List.nil_sublist _
  case parallel => exact (onward.cons_cons "Branches").trans (by decide)
  case map =>
    obtain ⟨document, rfl⟩ := List.length_eq_one_iff.mp holds
    exact (onward.cons_cons "Iterator").trans (by decide)
  case task | pass | wait => exact onward.trans (by decide)

/-- The keys of an entry are distinct. -/
theorem nodup_keys {nested : List Json} (holds : e.Holds nested.length) :
    ((e.content.fragment e.common ++ e.references nested).map (·.1)).Nodup := by
  have distinct : keys.Nodup := by decide
  rw [List.map_append]
  exact distinct.sublist (e.keys_fragment.append (e.keys_references holds))

end Entry

namespace Json.Inherited

variable {P : Json → Prop} {K : List String → Prop} (inherited : Inherited P K)

include inherited

theorem object_of_nodup {fields : List (String × Json)} (distinct : (fields.map (·.1)).Nodup)
    (each : ∀ field ∈ fields, P field.2) : P (.object fields) :=
  inherited.object.mpr ⟨inherited.distinct distinct, each⟩

theorem retry {r : Retry} (rate : P (.number r.backoffRate))
    (errors : ∀ error ∈ r.errors, P error) : P r.toJson := by
  refine inherited.object_of_nodup (by simp) ?_
  simp only [List.forall_mem_cons, List.not_mem_nil, false_imp_iff, implies_true, and_true]
  exact ⟨inherited.array.mpr errors, inherited.nat _, inherited.nat _, rate⟩

theorem handler {c : Catch String} (path : P c.resultPath) (errors : ∀ error ∈ c.errors, P error) :
    P c.toJson := by
  have keys : ((Json.optional "ResultPath" c.resultPath).map (·.1)).Sublist _ := keys_optional _ _
  have distinct : ["ErrorEquals", "Next", "ResultPath"].Nodup := by decide
  refine inherited.object_of_nodup ?_ (List.forall_mem_append.mpr ⟨?_, forall_optional path⟩)
  · rw [List.map_append]
    exact distinct.sublist ((List.Sublist.refl ["ErrorEquals", "Next"]).append keys)
  · simp only [List.forall_mem_cons, List.not_mem_nil, false_imp_iff, implies_true, and_true]
    exact ⟨inherited.array.mpr errors, inherited.string _⟩

theorem rule {r : Rule String} (condition : P r.condition.toJson) : P r.toJson := by
  obtain ⟨keys, each⟩ := inherited.object.mp condition
  refine inherited.object.mpr ⟨?_, fun field member => ?_⟩
  · rw [keys_setField]
    split
    case isTrue => exact keys
    case isFalse fresh => exact inherited.join fresh keys
  · rcases mem_setField member with old | new
    · exact each field old
    · exact new ▸ inherited.string _

end Json.Inherited

namespace Entry

/-- Whether all that an entry shows besides its documents has a property. -/
structure Gives (e : Entry) (P : Json → Prop) : Prop where
  common : P e.common.comment ∧ P e.common.inputPath ∧ P e.common.outputPath
  fields : ∀ field ∈ e.content.fields, P field.2
  rules : ∀ rules, e.content = .choice rules → ∀ rule ∈ rules, P rule.toJson
  retries : ∀ retry ∈ e.retries, P retry.toJson
  catches : ∀ handler ∈ e.catches, P handler.toJson

variable {e : Entry} {P : Json → Prop} {K : List String → Prop}

theorem Gives.onward (gives : e.Gives P) (inherited : Json.Inherited P K) :
    ∀ field ∈ e.onward, P field.2 := by
  unfold Entry.onward
  refine List.forall_mem_append.mpr ⟨List.forall_mem_cons.mpr ⟨?_, ?_⟩, ?_⟩
  · cases e.next with
    | none => exact inherited.bool true
    | some name => exact inherited.string name
  · split
    · simp
    · simpa [inherited.array] using gives.retries
  · split
    · simp
    · simpa [inherited.array] using gives.catches

theorem Gives.references (gives : e.Gives P) (inherited : Json.Inherited P K) {nested : List Json}
    (inner : ∀ d ∈ nested, P d) : ∀ field ∈ e.references nested, P field.2 := by
  unfold Entry.references
  cases content : e.content
  case choice rules =>
    refine List.forall_mem_cons.mpr ⟨?_, ?_⟩
    · simpa [inherited.array] using gives.rules rules content
    · cases e.next <;> simp [inherited.string]
  case parallel =>
    exact List.forall_mem_cons.mpr ⟨inherited.array.mpr inner, gives.onward inherited⟩
  case map =>
    exact List.forall_mem_append.mpr ⟨by simpa using inner, gives.onward inherited⟩
  case task | pass | wait => exact gives.onward inherited
  case succeed | fail => simp

theorem Gives.toJson (gives : e.Gives P) (inherited : Json.Inherited P K) {nested : List Json}
    (holds : e.Holds nested.length) (inner : ∀ d ∈ nested, P d) : P (e.toJson nested) := by
  obtain ⟨comment, input, output⟩ := gives.common
  refine inherited.object_of_nodup (e.nodup_keys holds)
    (List.forall_mem_append.mpr ⟨?_, gives.references inherited inner⟩)
  simp only [Content.fragment, List.cons_append, List.forall_mem_cons, List.forall_mem_append]
  exact ⟨inherited.string _, ⟨⟨Json.forall_optional comment, gives.fields⟩,
    Json.forall_optional input⟩, Json.forall_optional output⟩

end Entry

/-- A document has what its entries give, if it fits and the names of its states are keys. -/
theorem Document.inherits {P : Json → Prop} {K : List String → Prop}
    (inherited : Json.Inherited P K) {document : Document} (fits : document.Fits)
    (names : ∀ d ∈ document.levels, K (d.entries.map (·.1.name)))
    (gives : ∀ e ∈ document.preorder, e.Gives P) : P document.toJson := by
  induction document using Nested.induct with
  | step heading es ih =>
    rw [Nested.preorder_node] at gives
    obtain ⟨top, below⟩ := Nested.forall_mem_levels_node.mp names
    have entries : ∀ e ∈ es, P (e.1.toJson (e.2.map toJson)) := by
      intro e entry
      obtain ⟨holds, nested⟩ := fits_node.mp fits e entry
      have here := fun r member => gives r (List.mem_flatMap.mpr ⟨e, entry, member⟩)
      refine (here e.1 List.mem_cons_self).toJson inherited (by rwa [List.length_map])
        (List.forall_mem_map.mpr fun d within => ?_)
      exact ih e entry d within (nested d within) (below e entry d within)
        fun r member => here r (List.mem_cons_of_mem _ (List.mem_flatMap.mpr ⟨d, within, member⟩))
    have states : P (.object (es.map fun e => (e.1.name, e.1.toJson (e.2.map toJson)))) := by
      refine inherited.object.mpr ⟨?_, List.forall_mem_map.mpr entries⟩
      rwa [List.map_map]
    rw [toJson_node]
    refine inherited.object_of_nodup ?_ (List.forall_mem_append.mpr ⟨?_, ?_⟩)
    · cases heading.timeout <;> simp
    · simpa only [List.forall_mem_cons, List.not_mem_nil, false_imp_iff, implies_true, and_true]
        using ⟨inherited.string _, states⟩
    · cases heading.timeout <;> simp [inherited.nat]

namespace Workspace

variable {w : Workspace}

theorem mem_given_of_content {s : State} {content : Content} (shown : w.content? s = some content)
    {field : String × Json} (member : field ∈ content.fields) : field.2 ∈ s.kind.given := by
  unfold content? at shown
  cases kind : s.kind
  case plain | unbound => simp [kind] at shown
  all_goals
    simp only [kind, Option.some.injEq] at shown
    subst shown
  case choice | succeed => cases member
  all_goals
    simp only [Content.fields, WaitFields.given, List.cons_append, List.mem_append, List.mem_cons,
      Json.mem_optional] at member
    simp only [Kind.given, List.mem_cons, List.not_mem_nil, or_false]
    grind

theorem gives_of_entry {P : Json → Prop} {K : List String → Prop} (inherited : Json.Inherited P K)
    {m : Member} {r : Entry} (given : ∀ value ∈ (w.state m.state).given, P value)
    (ok : w.entry m = .ok r) : r.Gives P := by
  obtain ⟨content, -⟩ := entry_eq_ok ok
  have same := eq_of_entry ok
  unfold State.given at given
  simp only [List.forall_mem_append] at given
  obtain ⟨⟨⟨common, kind⟩, retries⟩, catches⟩ := given
  constructor
  case common =>
    rw [same]
    simpa using common
  case fields => exact fun field member => kind _ (mem_given_of_content content member)
  case rules =>
    intro rules choice rule member
    rw [choice] at content
    obtain ⟨given, tails, which, rfl⟩ := choice_of_content? content
    obtain ⟨rule, listed, rfl⟩ := List.mem_map.mp member
    rw [which] at kind
    exact inherited.rule (kind _ (List.mem_map_of_mem listed))
  case retries =>
    rw [same]
    intro retry member
    have given := fun v inside => retries v (List.mem_flatMap.mpr ⟨retry, member, inside⟩)
    obtain ⟨rate, errors⟩ := List.forall_mem_cons.mp given
    exact inherited.retry rate errors
  case catches =>
    rw [same]
    refine List.forall_mem_map.mpr fun handler member => ?_
    have given := fun v inside => catches v (List.mem_flatMap.mpr ⟨handler, member, inside⟩)
    obtain ⟨path, errors⟩ := List.forall_mem_cons.mp given
    exact inherited.handler path errors

/-- What was given for the states of a level, at all depths, is inherited by its document. -/
theorem inherits_of_given {P : Json → Prop} {K : List String → Prop}
    (inherited : Json.Inherited P K) {level : Level} {document : Document}
    (ok : w.document level = .ok document) (fits : document.Fits)
    (names : ∀ d ∈ document.levels, K (d.entries.map (·.1.name)))
    (given : ∀ m ∈ level.preorder, ∀ value ∈ (w.state m.state).given, P value) :
    P document.toJson := by
  refine Document.inherits inherited fits names fun e member => ?_
  obtain ⟨m, there, rendered⟩ := Outcome.exists_of_forall₂_right (document_preorder ok) member
  exact gives_of_entry inherited (given m there) rendered

end Workspace

end Workflow
