import Workflow.Proofs.Completeness
import Workflow.Proofs.Positions
import Workflow.Proofs.Reading

/-!
What the document of a compiled level says. It has the form of the level: an entry for every state
that the level lists, under the name that it lists, with the documents of the levels nested in it.
The entry shows the transitions of the state, each under the name of its target.
-/

namespace Workflow

/-- The transitions that the entry of a state shows. An end shows none. -/
def State.shown (s : State) : List (Field × Target) := if s.isTerminal then [] else s.outgoing

namespace Workspace

variable {w : Workspace}

/-- An entry with its documents, of a member with its levels. -/
structure Rendered (w : Workspace) (e : Member × List Level) (r : Entry × List Document) :
    Prop where
  entry : w.entry e.1 = .ok r.1
  nested : List.Forall₂ (fun level document => w.document level = .ok document) e.2 r.2

theorem document_node {header : Header} {members : Members} {document : Document}
    (ok : w.document (.node header members) = .ok document) :
    ∃ es, List.Forall₂ w.Rendered members es ∧ document = .node (w.heading header) es := by
  rw [Workspace.document, Nested.mapExcept_node] at ok
  simp only [Outcome.bind_eq_ok, Outcome.mapM_eq_ok, pure, Except.pure, Except.ok.injEq] at ok
  obtain ⟨es, each, rfl⟩ := ok
  refine ⟨es, each.imp ?_, rfl⟩
  rintro e ⟨entry, nested⟩ ⟨entry', rendered, nested', levels, ⟨⟩⟩
  exact ⟨rendered, levels⟩

theorem document_of_rendered {header : Header} {members : Members}
    {es : List (Entry × List Document)} (each : List.Forall₂ w.Rendered members es) :
    w.document (.node header members) = .ok (.node (w.heading header) es) := by
  rw [Workspace.document, Nested.mapExcept_node]
  simp only [Outcome.bind_eq_ok, Outcome.mapM_eq_ok, pure, Except.pure, Except.ok.injEq]
  refine ⟨es, each.imp ?_, rfl⟩
  intro e r rendered
  exact ⟨_, rendered.entry, _, rendered.nested, rfl⟩

theorem document_rendered {level : Level} {document : Document}
    (ok : w.document level = .ok document) :
    List.Forall₂ w.Rendered level.entries document.entries ∧
      document.info = w.heading level.info := by
  obtain ⟨header, members⟩ := level
  obtain ⟨es, each, rfl⟩ := document_node ok
  exact ⟨each, rfl⟩

/-- The documents in the document of a level are those of the levels in it, in the same order. -/
theorem document_levels {level : Level} {document : Document}
    (ok : w.document level = .ok document) :
    List.Forall₂ (fun l d => w.document l = .ok d) level.levels document.levels := by
  induction level using Nested.induct generalizing document with
  | step header members ih =>
    have whole := ok
    obtain ⟨es, each, rfl⟩ := document_node ok
    rw [Nested.levels_node, Nested.levels_node]
    refine .cons whole (List.rel_flatMap ((List.forall₂_and_left _ _).mpr ⟨ih, each⟩) ?_)
    rintro e r ⟨within, rendered⟩
    refine List.rel_flatMap ((List.forall₂_and_left _ _).mpr ⟨within, rendered.nested⟩) ?_
    rintro l d ⟨ih, ok⟩
    exact ih ok

theorem document_preorder {level : Level} {document : Document}
    (ok : w.document level = .ok document) :
    List.Forall₂ (fun m r => w.entry m = .ok r) level.preorder document.preorder := by
  induction level using Nested.induct generalizing document with
  | step header members ih =>
    obtain ⟨es, each, rfl⟩ := document_node ok
    rw [Nested.preorder_node, Nested.preorder_node]
    refine List.rel_flatMap ((List.forall₂_and_left _ _).mpr ⟨ih, each⟩) ?_
    rintro e r ⟨within, rendered⟩
    refine .cons rendered.entry ?_
    refine List.rel_flatMap ((List.forall₂_and_left _ _).mpr ⟨within, rendered.nested⟩) ?_
    rintro l d ⟨ih, ok⟩
    exact ih ok

theorem entry_eq_ok {m : Member} {r : Entry} (ok : w.entry m = .ok r) :
    w.content? (w.state m.state) = some r.content ∧ r.name = m.name ∧
      r.next = (w.state m.state).onward.map w.nameOf ∧
      r.catches = (w.state m.state).catches.map
        fun c => ⟨c.errors, w.nameOf c.target, c.resultPath⟩ := by
  unfold Workspace.entry at ok
  cases content : w.content? (w.state m.state) with
  | none => simp [content] at ok
  | some c =>
    simp only [content, Except.ok.injEq] at ok
    subst ok
    exact ⟨rfl, rfl, rfl, rfl⟩

theorem type_of_content? {s : State} {content : Content} (shown : w.content? s = some content) :
    s.type? = some content.type := by
  unfold content? at shown
  unfold State.type?
  cases kind : s.kind <;> simp only [kind, Option.some.injEq, reduceCtorEq] at shown <;>
    rw [← shown] <;> rfl

theorem choice_of_content? {s : State} {rules : List (Rule String)}
    (shown : w.content? s = some (.choice rules)) : ∃ given tails, s.kind = .choice given tails ∧
      rules = given.map fun r => ⟨r.condition, w.nameOf r.target⟩ := by
  rw [content?] at shown
  cases kind : s.kind <;> simp only [kind, Option.some.injEq, reduceCtorEq] at shown
  exact ⟨_, _, rfl, (Content.choice.inj shown).symm⟩

theorem entry_of_type {m : Member} {type : StateType}
    (typed : (w.state m.state).type? = some type) (bound : (w.state m.state).kind ≠ .unbound) :
    ∃ r, w.entry m = .ok r ∧ r.content.type = type := by
  cases content : w.content? (w.state m.state) with
  | none =>
    unfold content? at content
    unfold State.type? at typed
    cases kind : (w.state m.state).kind <;> simp [kind, Kind.type?] at content typed bound
  | some content' =>
    refine ⟨_, by simp only [entry, content]; rfl, ?_⟩
    exact Option.some.inj ((type_of_content? content).symm.trans typed)

theorem links_of_entry {m : Member} {r : Entry} (ok : w.entry m = .ok r) :
    r.links = (w.state m.state).shown.map fun t => (t.1, w.nameOf t.2) := by
  obtain ⟨content, -, next, catches⟩ := entry_eq_ok ok
  unfold content? at content
  unfold Entry.links Entry.onwardLinks State.shown State.isTerminal State.type? State.outgoing
  rw [next, catches]
  cases kind : (w.state m.state).kind
  case plain | unbound => simp [kind] at content
  all_goals
    simp only [kind, Option.some.injEq] at content
    cases (w.state m.state).onward <;>
    simp [← content, Kind.type?, StateType.isTerminal, Function.comp_def]

theorem iterator_of_complete {s : State} {fields : MapFields} {iterator : Option StateId}
    (kind : s.kind = .map fields iterator) (complete : s.validate = .ok ()) :
    iterator.isSome = true := by
  have held := (State.validate_eq_ok.mp complete).kind
  rw [kind] at held
  exact held.1

theorem holds_of_explored {label : String} {e : Member × List Level} {r : Entry}
    (explored : w.Explored label e) (ok : w.entry e.1 = .ok r) : r.Holds e.2.length := by
  obtain ⟨content, -⟩ := entry_eq_ok ok
  have count : e.2.length = (w.state e.1.state).nestedStarts.length := by
    rw [← explored.nested_starts, List.length_map]
  rw [count]
  unfold content? at content
  unfold Entry.Holds State.nestedStarts
  cases kind : (w.state e.1.state).kind
  case plain | unbound => simp [kind] at content
  case map fields iterator =>
    have given := iterator_of_complete kind explored.complete
    obtain ⟨start, rfl⟩ := Option.isSome_iff_exists.mp given
    simp only [kind, Option.some.injEq] at content
    simp [← content]
  all_goals
    simp only [kind, Option.some.injEq] at content
    simp [← content]

theorem fits_of_sound {level : Level} {document : Document} (ok : w.document level = .ok document)
    (sound : ∀ l ∈ level.levels, w.Sound l) : document.Fits := by
  intro d within r entry
  obtain ⟨l, within', ok'⟩ := Outcome.exists_of_forall₂_right (document_levels ok) within
  obtain ⟨each, -⟩ := document_rendered ok'
  obtain ⟨e, member, rendered⟩ := Outcome.exists_of_forall₂_right each entry
  rw [← rendered.nested.length_eq]
  exact holds_of_explored ((sound l within').explored e member) rendered.entry

/-- The entry of a state in the document of a level, with the documents of the levels that the state
runs there. -/
def rendering (w : Workspace) (level : Level) (s : StateId) : Except Fault Json := do
  let entry ← w.entry ⟨(w.state s).name, s⟩
  let nested ← (Level.nestedIn level.entries s).mapM w.document
  return entry.toJson (nested.map Document.toJson)

theorem keys_document {level : Level} {document : Document}
    (ok : w.document level = .ok document) :
    document.toJson.keys = level.entries.map (·.1.name) := by
  obtain ⟨each, -⟩ := document_rendered ok
  rw [Document.keys_toJson]
  symm
  apply Outcome.map_eq_of_forall₂ each
  intro e r rendered
  obtain ⟨-, named, -⟩ := entry_eq_ok rendered.entry
  exact named.symm

theorem nodup_keys {level : Level} {document : Document}
    (distinct : (level.entries.map (·.1.name)).Nodup) (ok : w.document level = .ok document) :
    document.toJson.keys.Nodup := by
  rw [keys_document ok]
  exact distinct

theorem Sound.names_eq {level : Level} (sound : w.Sound level) :
    level.entries.map (·.1.name) = (Level.states level.entries).map fun s => (w.state s).name := by
  rw [Level.states, List.map_map]
  apply List.map_congr_left
  intro e entry
  exact (sound.explored e entry).named

theorem lookup_rendering {level : Level} {document : Document} (sound : w.Sound level)
    (distinct : (level.entries.map (·.1.name)).Nodup) (ok : w.document level = .ok document)
    {s : StateId} (listed : s ∈ Level.states level.entries) :
    ∃ r nested, w.entry ⟨(w.state s).name, s⟩ = .ok r ∧ r.Holds nested.length ∧
      List.Forall₂ (fun l d => w.document l = .ok d) (Level.nestedIn level.entries s) nested ∧
      document.toJson.entries.lookup (w.state s).name =
        some (r.toJson (nested.map Document.toJson)) := by
  obtain ⟨e, entry, rfl, nested⟩ := Level.nestedIn_eq listed
  obtain ⟨each, -⟩ := document_rendered ok
  obtain ⟨r, member, rendered⟩ := Outcome.exists_of_forall₂ each entry
  have named : e.1 = ⟨(w.state e.1.state).name, e.1.state⟩ := by
    rw [← (sound.explored e entry).named]
  have holds : r.1.Holds r.2.length :=
    rendered.nested.length_eq ▸ holds_of_explored (sound.explored e entry) rendered.entry
  refine ⟨r.1, r.2, named ▸ rendered.entry, holds, nested ▸ rendered.nested, ?_⟩
  rw [Json.lookup_eq_some_iff_mem (nodup_keys distinct ok), Document.entries_toJson]
  obtain ⟨-, same, -⟩ := entry_eq_ok rendered.entry
  rw [← (sound.explored e entry).named, ← same]
  exact List.mem_map_of_mem member

end Workspace
end Workflow
