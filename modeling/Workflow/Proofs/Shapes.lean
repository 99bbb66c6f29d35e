import Workflow.Proofs.Abstraction
import Workflow.Proofs.Keeping

/-!
Shapes of entries. Every entry of every document that is handed out has the fields that the type of
its state asks for and no others that lead on, end a path or handle errors. A state is complete when
its graph is compiled, and what is complete stays complete whatever is done later; so the shape of
an entry does not depend on when its document is asked for.
-/

namespace Workflow

namespace Json

/-- Which of some fields an object has, in the order in which it has them. -/
def shown (keys : List String) (value : Json) : List String :=
  (value.fields.map (·.1)).filter (· ∈ keys)

variable {keys : List String}

theorem shown_append (fields more : List (String × Json)) :
    (object (fields ++ more)).shown keys =
      (object fields).shown keys ++ (object more).shown keys := by
  simp only [shown, Json.fields, List.map_append, List.filter_append]

theorem shown_cons (field : String × Json) (fields : List (String × Json)) :
    (object (field :: fields)).shown keys =
      (if field.1 ∈ keys then [field.1] else []) ++ (object fields).shown keys := by
  by_cases member : field.1 ∈ keys <;> simp [shown, Json.fields, member]

theorem shown_optional (key : String) (value : Json) :
    (object (optional key value)).shown keys =
      if key ∈ keys then (optional key value).map (·.1) else [] := by
  unfold optional
  by_cases null : value.isNull = true <;> by_cases member : key ∈ keys <;>
    simp [shown, Json.fields, null, member]

/-- What cannot be looked up is not shown. -/
theorem shown_eq_nil {fields : List (String × Json)}
    (absent : ∀ key ∈ keys, fields.lookup key = none) : (object fields).shown keys = [] := by
  apply List.filter_eq_nil_iff.mpr
  intro key member
  obtain ⟨field, listed, rfl⟩ := List.mem_map.mp member
  rw [decide_eq_true_eq]
  intro among
  simpa using List.lookup_eq_none_iff.mp (absent field.1 among) field listed

/-- Whether an entry is of the form that a type of states asks for, of a state that is marked as an
end or is not. -/
structure Shaped (type : StateType) (stopped : Bool) (entry : Json) : Prop where
  named : entry.field? "Type" = some (.string type.name)
  leading : type ≠ .choice → type.isTerminal = false →
    entry.shown ["Next", "End"] = [if stopped then "End" else "Next"]
  choosing : type = .choice → entry.shown ["Next", "End"] = [] ∧
    ∃ rules, rules ≠ [] ∧ entry.field? "Choices" = some (.array rules)
  ending : type.isTerminal = true →
    entry.shown ["Next", "End", "Choices", "Retry", "Catch"] = []
  waiting : type = .wait →
    ∃ key, entry.shown ["Seconds", "Timestamp", "SecondsPath", "TimestampPath"] = [key]
  branching : type = .parallel →
    ∃ branches, branches ≠ [] ∧ entry.field? "Branches" = some (.array branches)
  iterating : type = .map → entry.shown ["Iterator"] = ["Iterator"]
  failing : type.canFail = false → entry.shown ["Retry", "Catch"] = []
  listing : ∀ key ∈ ["Retry", "Catch"], ∀ value, entry.field? key = some value →
    ∃ items, items ≠ [] ∧ value = .array items

end Json

namespace Entry

variable {e : Entry} {nested : List Json} {keys : List String}

/-- Fields that do not describe a state are those that refer to others. -/
theorem shown_toJson (other : ∀ key ∈ keys, key ∉ Content.describing) :
    (e.toJson nested).shown keys = (Json.object (e.references nested)).shown keys := by
  have described : (Json.object (e.content.fragment e.common)).shown keys = [] :=
    Json.shown_eq_nil fun key member => e.content.lookup_fragment_none e.common (other key member)
  rw [toJson, Json.shown_append, described, List.nil_append]

theorem shown_toJson_of_not_leads (ends : ¬ e.Leads)
    (other : ∀ key ∈ keys, key ∉ Content.describing ∧ key ∉ ["Choices", "Default"]) :
    (e.toJson nested).shown keys = [] := by
  rw [shown_toJson fun key member => (other key member).1]
  apply Json.shown_eq_nil
  intro key member
  exact lookup_references_of_not_leads ends nested (other key member).2

theorem shown_onward :
    (Json.object e.onward).shown ["Next", "End"] = [if e.next.isSome then "Next" else "End"] := by
  cases next : e.next <;> simp only [onward, next] <;> split <;> split <;>
    simp [Json.shown, Json.fields]

theorem shown_references_onward (leads : e.Leads) :
    (Json.object (e.references nested)).shown ["Next", "End"] =
      [if e.next.isSome then "Next" else "End"] := by
  have onward := e.shown_onward
  have iterators : (Json.object (nested.map (("Iterator", ·)))).shown ["Next", "End"] = [] :=
    Json.shown_eq_nil fun key member => Json.lookup_each_of_ne (by rintro rfl; simp at member)
  rw [references]
  rw [Leads] at leads
  cases content : e.content <;> simp only [content] at leads ⊢
  case parallel => rw [Json.shown_cons, onward]; rfl
  case map => rw [Json.shown_append, iterators, onward]; rfl
  case task | pass | wait => exact onward

theorem shown_given {fields : WaitFields} (content : e.content = .wait fields) :
    (e.toJson nested).shown ["Seconds", "Timestamp", "SecondsPath", "TimestampPath"] =
      fields.given.map (·.1) := by
  have apart : (Json.object (e.references nested)).shown
      ["Seconds", "Timestamp", "SecondsPath", "TimestampPath"] = [] := by
    have described : ∀ key ∈ ["Seconds", "Timestamp", "SecondsPath", "TimestampPath"],
        key ∈ Content.describing := by decide
    exact Json.shown_eq_nil fun key member => e.lookup_references_none nested (described key member)
  rw [toJson, Json.shown_append, apart, content]
  simp [Content.fragment, Content.fields, WaitFields.given, Json.shown_cons, Json.shown_append,
    Json.shown_optional]

/-- Retries and handlers are listed if there are any. -/
theorem listing_onward {key : String} (member : key ∈ ["Retry", "Catch"]) {value : Json}
    (found : e.onward.lookup key = some value) : ∃ items, items ≠ [] ∧ value = .array items := by
  have listed {α : Type} {write : α → Json} {items : List α} {name : String}
      (member : (key, value) ∈ if items.isEmpty then [] else
        [(name, Json.array (items.map write))]) : ∃ items, items ≠ [] ∧ value = .array items := by
    split at member
    · cases member
    · rename_i given
      obtain ⟨-, rfl⟩ := Prod.mk.inj (List.mem_singleton.mp member)
      exact ⟨_, by simpa using given, rfl⟩
  rcases List.mem_append.mp (Json.mem_of_lookup found) with before | handlers
  · rcases List.mem_cons.mp before with way | retries
    · cases next : e.next <;> rw [next] at way <;> obtain ⟨rfl, -⟩ := Prod.mk.inj way <;>
        simp at member
    · exact listed retries
  · exact listed handlers

theorem listing_toJson {key : String} (member : key ∈ ["Retry", "Catch"]) {value : Json}
    (found : (e.toJson nested).field? key = some value) :
    ∃ items, items ≠ [] ∧ value = .array items := by
  have free : ∀ key ∈ ["Retry", "Catch"], key ∉ Content.describing ∧
      key ∉ ["Branches", "Iterator"] ∧ key ∉ ["Choices", "Default"] := by decide
  obtain ⟨undescribed, outer, inner⟩ := free key member
  rw [e.field?_toJson_of_not_describing nested undescribed] at found
  by_cases leads : e.Leads
  · rw [lookup_references_onward leads nested outer] at found
    exact listing_onward member found
  · rw [lookup_references_of_not_leads leads nested inner] at found
    cases found

/-- What an entry needs, besides the number of its documents, to be of the form that its type asks
for. -/
structure Ready (e : Entry) : Prop where
  choosing : ∀ rules, e.content = .choice rules → rules ≠ []
  waiting : ∀ fields, e.content = .wait fields → fields.given.length = 1
  failing : e.content.type.canFail = false → e.retries = [] ∧ e.catches = []

theorem leads_iff : e.Leads ↔ e.content.type ≠ .choice ∧ e.content.type.isTerminal = false := by
  rw [Leads]
  cases e.content <;> simp [Content.type, StateType.isTerminal]

theorem shaped_toJson {stopped : Bool} (ready : e.Ready)
    (stops : e.Leads → (e.next.isSome = !stopped))
    (branches : e.content.type = .parallel → nested ≠ [])
    (iterator : e.content.type = .map → nested.length = 1) :
    (e.toJson nested).Shaped e.content.type stopped := by
  constructor
  case named => rfl
  case leading =>
    intro other running
    have leads := leads_iff.mpr ⟨other, running⟩
    rw [shown_toJson (by decide), shown_references_onward leads, stops leads]
    cases stopped <;> rfl
  case choosing =>
    intro choice
    have ends : ¬ e.Leads := fun leads => (leads_iff.mp leads).1 choice
    refine ⟨shown_toJson_of_not_leads ends (by decide), ?_⟩
    cases content : e.content <;> simp only [content, Content.type, reduceCtorEq] at choice
    rename_i rules
    refine ⟨rules.map Rule.toJson, by simpa using ready.choosing rules content, ?_⟩
    rw [e.field?_toJson_of_not_describing nested (by decide), references, content]
    rfl
  case ending =>
    intro terminal
    rw [shown_toJson (by decide), references]
    cases content : e.content <;>
      simp only [content, Content.type, StateType.isTerminal, Bool.false_eq_true] at terminal
    all_goals rfl
  case waiting =>
    intro wait
    cases content : e.content <;> simp only [content, Content.type, reduceCtorEq] at wait
    rename_i fields
    rw [shown_given content]
    apply List.length_eq_one_iff.mp
    rw [List.length_map, ready.waiting fields content]
  case branching =>
    intro parallel
    refine ⟨nested, branches parallel, ?_⟩
    cases content : e.content <;> simp only [content, Content.type, reduceCtorEq] at parallel
    rw [e.field?_toJson nested (by decide), references, content]
    rfl
  case iterating =>
    intro map
    obtain ⟨document, rfl⟩ := List.length_eq_one_iff.mp (iterator map)
    have onward : (Json.object e.onward).shown ["Iterator"] = [] := by
      apply Json.shown_eq_nil
      intro key member
      exact e.lookup_onward_none (List.mem_singleton.mp member ▸ by decide)
    cases content : e.content <;> simp only [content, Content.type, reduceCtorEq] at map
    rw [shown_toJson (by decide), references, content]
    simp only [List.map_singleton, List.singleton_append, Json.shown_cons, onward]
    rfl
  case failing =>
    intro unable
    obtain ⟨retries, catches⟩ := ready.failing unable
    by_cases leads : e.Leads
    · rw [shown_toJson (by decide)]
      apply Json.shown_eq_nil
      intro key member
      have apart : ∀ key ∈ ["Retry", "Catch"], key ∉ ["Branches", "Iterator"] ∧
          key ≠ "Next" ∧ key ≠ "End" := by decide
      obtain ⟨outer, next, stop⟩ := apart key member
      rw [lookup_references_onward leads nested outer, onward, retries, catches]
      cases e.next <;> simp [Json.lookup_cons_of_ne, next, stop]
    · exact shown_toJson_of_not_leads leads (by decide)
  case listing => exact fun key member value found => listing_toJson member found

end Entry

namespace State

variable {s new : State} {known : StateId → Prop}

theorem isTerminal_of_type (type : new.type? = s.type?) : new.isTerminal = s.isTerminal := by
  rw [isTerminal, isTerminal, type]

/-- A state that is complete is not made incomplete: a way out is never taken back, and lists only
grow. -/
theorem Change.complete (change : s.Change known new) (complete : s.Complete) : new.Complete := by
  have type := change.type_eq
  constructor
  case exit =>
    rw [type, isTerminal_of_type type]
    intro other running
    cases change with
    | wire | stop => simp
    | retry | handle | rule | tails | branches | iterator => exact complete.exit other running
  case kind =>
    have held := complete.kind
    cases change with
    | wire | stop | retry | handle => exact held
    | rule => simp [Kind.Complete]
    | tails more kind =>
      rw [kind] at held
      exact held
    | branches starts kind =>
      rw [kind] at held
      exact List.append_ne_nil_of_left_ne_nil held starts
    | iterator start kind =>
      rw [kind] at held
      exact ⟨rfl, held.2⟩

theorem Complete.rename (complete : s.Complete) (name : String) :
    State.Complete { s with name } :=
  ⟨complete.exit, complete.kind⟩

theorem Complete.branches_ne_nil (complete : s.Complete) (type : s.type? = some .parallel) :
    s.nestedStarts ≠ [] := by
  have held := complete.kind
  rw [type?] at type
  cases kind : s.kind <;> simp only [kind, Kind.type?, Option.some.injEq, reduceCtorEq] at type
  rw [kind] at held
  rw [nestedStarts, kind]
  exact held

theorem Complete.one_iterator (complete : s.Complete) (type : s.type? = some .map) :
    s.nestedStarts.length = 1 := by
  have held := complete.kind
  rw [type?] at type
  cases kind : s.kind <;> simp only [kind, Kind.type?, Option.some.injEq, reduceCtorEq] at type
  rw [kind] at held
  obtain ⟨start, rfl⟩ := Option.isSome_iff_exists.mp held.1
  simp only [nestedStarts, kind, Option.toList_some, List.length_singleton]

theorem not_complete_default : ¬ State.Complete default :=
  fun complete => complete.exit (by decide) rfl rfl

end State

namespace Workspace

variable {w : Workspace}

theorem ready_of_entry {m : Member} {r : Entry} (orderly : (w.state m.state).Orderly)
    (complete : (w.state m.state).Complete) (ok : w.entry m = .ok r) : r.Ready := by
  obtain ⟨content, -⟩ := entry_eq_ok ok
  have typed := type_of_content? content
  have held := complete.kind
  constructor
  case choosing =>
    intro rules choice
    rw [choice] at content
    obtain ⟨given, tails, kind, rfl⟩ := choice_of_content? content
    rw [kind] at held
    exact fun none => held (List.map_eq_nil_iff.mp none)
  case waiting =>
    intro fields wait
    rw [wait, content?] at content
    cases kind : (w.state m.state).kind <;>
      simp only [kind, Option.some.injEq, reduceCtorEq, Content.wait.injEq] at content
    rw [kind] at held
    exact content ▸ held.1
  case failing =>
    intro unable
    have none : (w.state m.state).retries = [] ∧ (w.state m.state).catches = [] := by
      by_contra listed
      have types := orderly.failing (Classical.not_and_iff_not_or_not.mp listed)
      rw [typed] at types
      rcases types with type | type | type <;> rw [Option.some.inj type] at unable <;> cases unable
    rw [eq_of_entry ok]
    exact ⟨none.1, by rw [none.2]; rfl⟩

/-- The entry of a complete state has the shape that the type of the state asks for. -/
theorem shaped_of_entry {m : Member} {r : Entry} {nested : List Json}
    (orderly : (w.state m.state).Orderly) (complete : (w.state m.state).Complete)
    (ok : w.entry m = .ok r) (branches : r.content.type = .parallel → nested ≠ [])
    (iterator : r.content.type = .map → nested.length = 1) :
    (r.toJson nested).Shaped r.content.type (w.state m.state).isStopped := by
  obtain ⟨content, -, next, -⟩ := entry_eq_ok ok
  have typed := type_of_content? content
  refine Entry.shaped_toJson (ready_of_entry orderly complete ok) ?_ branches iterator
  intro leads
  obtain ⟨other, running⟩ := Entry.leads_iff.mp leads
  have set := complete.exit (by simpa [typed] using other)
    (by simpa [State.isTerminal, typed] using running)
  rw [next, State.onward, State.isStopped]
  cases exit : (w.state m.state).exit with
  | unset => exact absurd exit set
  | next | stop => rfl

/-- Whether the entries of a document are those of the states of a level, in order and each of the
shape that the type of its state asks for. -/
def Shapes (w : Workspace) (level : Level) (document : Json) : Prop :=
  List.Forall₂ (fun e entry => entry.1 = e.1.name ∧ ∃ type,
    (w.state e.1.state).type? = some type ∧
    entry.2.Shaped type (w.state e.1.state).isStopped) level.entries document.entries

end Workspace

namespace Runs

variable {u w w' : Workspace} {ops : List Operation} {ref : GraphRef} {document : Document}

theorem complete (runs : Runs u ops w) {s : StateId} (before : (u.state s).Complete) :
    (w.state s).Complete := by
  refine runs.keeps_of_change (P := fun v => (v.state s).Complete) ?_ ?_ ?_ before
  · intro v v' change
    exact change.state_cases (P := fun before after => before.Complete → after.Complete)
      (fun _ before => before) (fun _ _ _ before => absurd before State.not_complete_default)
      (fun _ _ changed before => changed.complete before) s
  · intro v t name _
    exact v.rename_cases (P := fun before after => before.Complete → after.Complete)
      (fun _ before => before) (fun _ name before => before.rename name) t s name
  · intro v v' states _ before
    rwa [Workspace.state_of_states states]

/-- Whenever a document is handed out, all its entries and those of the documents in it are of the
shape that the types of their states ask for, and an end is shown where a state is marked as one. -/
theorem entries_shaped (runs : Runs {} ops w) (known : w.HasGraph ref.root)
    (handed : Build.document ref w = .ok document w') :
    ∃ level, Build.level ref w = .ok level w' ∧
      List.Forall₂ w.Shapes level.levels document.toJson.documents := by
  obtain ⟨level, found, rendered⟩ := Build.level_of_document handed
  obtain ⟨c, compiled, -, place⟩ := Build.level_ok found
  obtain ⟨before, later, v, c', -, -, last, ok, same, -⟩ := runs.compiles known compiled
  obtain ⟨-, -, sound⟩ := Workspace.compile_ok ok none
  obtain ⟨other, within, same⟩ := Level.exists_untimed same (Build.mem_levels_of_level place)
  have sound : ∀ l ∈ other.levels, v.Sound l :=
    fun l inside => sound l (Nested.mem_levels_trans inside within)
  refine ⟨level, found, ?_⟩
  rw [Document.documents_toJson (runs.document_fits known handed), List.forall₂_map_right_iff]
  refine List.Forall₂.imp ?_ ((List.forall₂_and_left _ _).mpr
    ⟨fun l within => within, Workspace.document_levels rendered⟩)
  rintro l d ⟨within, rendered⟩
  obtain ⟨entries, -⟩ := Workspace.document_rendered rendered
  rw [Workspace.Shapes, Document.entries_toJson, List.forall₂_map_right_iff]
  refine List.Forall₂.imp ?_ ((List.forall₂_and_left _ _).mpr ⟨fun e entry => entry, entries⟩)
  rintro e r ⟨entry, rendered⟩
  obtain ⟨label, e', explored, member, count⟩ :=
    Workspace.explored_of_untimed sound same within entry
  have early : (v.state e.1.state).Complete :=
    member ▸ State.validate_eq_ok.mp explored.complete
  obtain ⟨content, named, -⟩ := Workspace.entry_eq_ok rendered.entry
  have typed := Workspace.type_of_content? content
  have known : v.HasState e.1.state := member ▸ Workspace.index_lt_of_complete explored.complete
  have nested : (r.2.map Document.toJson).length = (v.state e.1.state).nestedStarts.length := by
    rw [List.length_map, ← rendered.nested.length_eq, ← count, ← member, ← explored.nested_starts,
      List.length_map]
  refine ⟨named, _, typed, Workspace.shaped_of_entry (runs.orderly _) (last.complete early)
    rendered.entry ?_ ?_⟩
  · intro parallel
    rw [last.type_eq known, parallel] at typed
    have some := early.branches_ne_nil typed
    rw [← List.length_pos_iff, nested, List.length_pos_iff]
    exact some
  · intro map
    rw [last.type_eq known, map] at typed
    rw [nested, early.one_iterator typed]

/-- A graph is compiled and its states are given a branch, a handler, a retry and a name
afterwards. -/
def extended : List Operation :=
  review ++ [.inquiry (.level ⟨⟨0⟩, []⟩), .edit (.branches ⟨0⟩ [⟨3⟩]),
    .edit (.handle ⟨0⟩ (.name "Nowhere") .null .null), .edit (.retry ⟨0⟩ { backoffRate := .nat 2 }),
    .edit (.rename ⟨1⟩ "Later")]

/-- The entries of a graph that was compiled before its states were extended keep their shape. -/
theorem extended_entries_shaped :
    ∃ w document w', Runs {} extended w ∧ w.HasGraph ⟨0⟩ ∧
      Build.document ⟨⟨0⟩, []⟩ w = .ok document w' ∧
      document.toJson.keys = ["Ask", "Decide", "Done"] ∧
      ∃ level, Build.level ⟨⟨0⟩, []⟩ w = .ok level w' ∧
        List.Forall₂ w.Shapes level.levels document.toJson.documents := by
  have runs : Runs {} extended _ := .of_allows (by decide)
  have ok : Build.document ⟨⟨0⟩, []⟩ (Workspace.run {} extended) = .ok _ _ := rfl
  exact ⟨_, _, _, runs, by decide, ok, rfl, entries_shaped runs (by decide) ok⟩

end Runs
end Workflow
