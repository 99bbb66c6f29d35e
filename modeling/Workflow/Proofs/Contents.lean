import Workflow.Proofs.Acceptance
import Workflow.Proofs.Rendering

/-!
Contents of documents. The document of a graph shows the states that can be reached from the start,
each under its name and once, with a document for every graph that the state runs; and what it shows
at any depth are the states that the graph was found to have, in the order in which they were found.
-/

namespace Workflow

/-- Whether an entry holds a document for each branch of its state, or one for its iterator. -/
def State.Embeds (s : State) (entry : Json) : Prop :=
  match s.kind with
  | .parallel _ branches => entry.field? "Iterator" = none ∧ ∃ documents,
      entry.field? "Branches" = some (.array documents) ∧ documents.length = branches.length
  | .map _ iterator => entry.field? "Branches" = none ∧ iterator.isSome ∧ ∃ document,
      entry.field? "Iterator" = some document
  | _ => entry.field? "Branches" = none ∧ entry.field? "Iterator" = none

namespace Workspace

variable {w : Workspace}

/-- Whether a document has one entry for every state that can be reached from a start, and no other,
without regard to the documents of the entries. -/
structure Lists (w : Workspace) (start : StateId) (document : Json) : Prop where
  startAt : document.field? "StartAt" = some (.string (w.state start).name)
  distinct : document.keys.Nodup
  reachable : ∀ name, name ∈ document.keys ↔ ∃ s, w.Reaches start s ∧ (w.state s).name = name
  embeds : ∀ (s : StateId) (entry : Json), w.Reaches start s →
    document.entries.lookup (w.state s).name = some entry → (w.state s).Embeds entry

/-- Whether a document shows the graph that starts at a state: it lists the states that can be
reached, and the documents of an entry show the graphs that its state runs, in order. -/
inductive Shows (w : Workspace) : StateId → Json → Prop
  | intro {start : StateId} {document : Json} (lists : w.Lists start document)
      (nested : ∀ (s : StateId) (entry : Json) (i : Nat) (first : StateId) (inner : Json),
        w.Reaches start s →
        document.entries.lookup (w.state s).name = some entry →
        (w.state s).nestedStarts[i]? = some first → entry.inner[i]? = some inner →
        Shows w first inner) : Shows w start document

theorem embeds_of_entry {m : Member} {r : Entry} {nested : List Json} (ok : w.entry m = .ok r)
    (holds : r.Holds nested.length)
    (count : nested.length = (w.state m.state).nestedStarts.length) :
    (w.state m.state).Embeds (r.toJson nested) := by
  obtain ⟨content, -⟩ := entry_eq_ok ok
  unfold content? at content
  unfold State.nestedStarts at count
  unfold Entry.Holds at holds
  unfold State.Embeds
  rw [r.field?_toJson nested (by decide), r.field?_toJson nested (by decide)]
  unfold Entry.references
  cases kind : (w.state m.state).kind
  case plain | unbound => simp [kind] at content
  all_goals
    simp only [kind, Option.some.injEq] at content count ⊢
    simp only [← content] at holds ⊢
  case parallel => simp [Json.lookup_cons_of_ne, Entry.lookup_onward_none, count]
  case map fields iterator =>
    obtain ⟨document, rfl⟩ := List.length_eq_one_iff.mp holds
    cases iterator with
    | none => simp at count
    | some first => simp [Json.lookup_cons_of_ne, Entry.lookup_onward_none]
  case choice => cases r.next <;> simp [Json.lookup_cons_of_ne]
  all_goals simp [Entry.lookup_onward_none]

theorem Sound.nestedIn_starts {level : Level} (sound : w.Sound level) {s : StateId}
    (listed : s ∈ Level.states level.entries) :
    (Level.nestedIn level.entries s).map (·.info.start) = (w.state s).nestedStarts := by
  obtain ⟨e, entry, rfl, nested⟩ := Level.nestedIn_eq listed
  rw [nested]
  exact (sound.explored e entry).nested_starts

theorem lists_of_sound {level : Level} {document : Document} (sound : w.Sound level)
    (distinct : (level.entries.map (·.1.name)).Nodup) (ok : w.document level = .ok document) :
    w.Lists level.info.start document.toJson := by
  constructor
  case startAt =>
    obtain ⟨-, heading⟩ := document_rendered ok
    rw [Document.startAt_toJson, heading]
    rfl
  case distinct => exact nodup_keys distinct ok
  case reachable =>
    intro name
    rw [keys_document ok, sound.names_eq, List.mem_map]
    exact exists_congr fun s => and_congr_left fun _ => sound.mem_states_iff
  case embeds =>
    intro s entry reaches found
    have listed := sound.mem_states_iff.mpr reaches
    obtain ⟨r, nested, rendered, holds, levels, found'⟩ := lookup_rendering sound distinct ok listed
    obtain rfl := Option.some.inj (found.symm.trans found')
    have count : (nested.map Document.toJson).length = (w.state s).nestedStarts.length := by
      rw [List.length_map, ← levels.length_eq, ← sound.nestedIn_starts listed, List.length_map]
    refine embeds_of_entry rendered ?_ count
    rwa [List.length_map]

/-- The document of a level shows the graph of its start. -/
theorem shows_of_sound {level : Level} {document : Document}
    (sound : ∀ l ∈ level.levels, w.Sound l) (distinct : (level.preorder.map (·.name)).Nodup)
    (ok : w.document level = .ok document) : w.Shows level.info.start document.toJson := by
  induction level using Nested.induct generalizing document with
  | step header members ih =>
    have within := Nested.mem_levels_self (.node header members : Level)
    have top := sound _ within
    have names := Level.distinct_of_mem_levels distinct within
    apply Shows.intro (lists_of_sound top names ok)
    intro s entry i first inner reaches found runs at_i
    have listed := top.mem_states_iff.mpr reaches
    obtain ⟨r, nested, rendered, holds, levels, found'⟩ := lookup_rendering top names ok listed
    obtain rfl := Option.some.inj (found.symm.trans found')
    rw [Entry.inner_toJson r (by rwa [List.length_map]), List.getElem?_map,
      Option.map_eq_some_iff] at at_i
    obtain ⟨d, at_i, rfl⟩ := at_i
    rw [← top.nestedIn_starts listed, List.getElem?_map, Option.map_eq_some_iff] at runs
    obtain ⟨l, runs, rfl⟩ := runs
    obtain ⟨d', at_i', ok⟩ := Outcome.getElem?_of_forall₂ levels runs
    obtain rfl := Option.some.inj (at_i.symm.trans at_i')
    obtain ⟨e, entry, -, same⟩ := Level.nestedIn_eq listed
    have member : l ∈ e.2 := same ▸ List.mem_of_getElem? runs
    refine ih e entry l member (fun l' inside => ?_) ?_ ok
    · exact sound l' (Nested.mem_levels_of_nested entry member inside)
    · have inside := Nested.mem_levels_of_nested entry member l.mem_levels_self
      exact distinct.sublist ((Nested.preorder_sublist_of_mem_levels inside).map _)

theorem names_of_fits {level : Level} {document : Document} (fits : document.Fits)
    (ok : w.document level = .ok document) :
    document.toJson.names = level.preorder.map (·.name) := by
  rw [Document.names_toJson fits]
  symm
  apply Outcome.map_eq_of_forall₂ (document_preorder ok)
  intro m r rendered
  obtain ⟨-, named, -⟩ := entry_eq_ok rendered
  exact named.symm

theorem names_document {level : Level} {document : Document}
    (sound : ∀ l ∈ level.levels, w.Sound l) (ok : w.document level = .ok document) :
    document.toJson.names = level.preorder.map (·.name) :=
  names_of_fits (fits_of_sound ok sound) ok

end Workspace

namespace Build

/-- Whenever a graph that was not compiled before comes to a document, nothing is lost in it, made
up or shown twice. -/
theorem document_contents {w w' : Workspace} {g : GraphId} {document : Document}
    (fresh : (w.graph g).compiled = none) (ok : Build.document ⟨g, []⟩ w = .ok document w') :
    w.Shows (w.graph g).start document.toJson ∧ document.toJson.names.Nodup ∧
      (∀ p q s, w.Belongs (w.graph g).start p s → w.Belongs (w.graph g).start q s → p = q) ∧
      ∃ states, Build.allStates ⟨g, []⟩ w' = .ok states w' ∧
        document.toJson.names = states.map fun s => (w'.state s).name := by
  obtain ⟨c, compiled, rfl, rendered⟩ := document_eq_ok.mp ok
  have kept := Workspace.compiled_keep compiled
  rw [Workspace.compiled_of_fresh fresh] at compiled
  obtain ⟨sound, registered, names⟩ := Workspace.level_of_compile compiled
  have shown : document.toJson.names = c.registry.map (·.name) := by
    rw [Workspace.names_document sound rendered, names]
  have good := Workspace.compile_wellFormed compiled
  refine ⟨?_, ?_, ?_, ?_⟩
  · exact Workspace.shows_of_sound sound (names ▸ registered.distinct) rendered
  · exact shown ▸ registered.distinct
  · intro p q s here there
    exact good.path_unique here there
  · refine ⟨_, allStates_eq_ok.mpr ⟨c, kept, w.keep_keep g c, rfl⟩, ?_⟩
    rw [shown, List.map_map]
    apply List.map_congr_left
    intro r member
    exact registered.named r member

theorem approval_contents :
    (Workspace.approval.graph ⟨0⟩).compiled = none ∧
      ∃ document w', Build.document ⟨⟨0⟩, []⟩ Workspace.approval = .ok document w' ∧
        Workspace.approval.Shows ⟨0⟩ document.toJson ∧ document.toJson.names.Nodup ∧
        (∀ p q s, Workspace.approval.Belongs ⟨0⟩ p s → Workspace.approval.Belongs ⟨0⟩ q s → p = q) ∧
        ∃ states, Build.allStates ⟨⟨0⟩, []⟩ w' = .ok states w' ∧
          document.toJson.names = states.map fun s => (w'.state s).name := by
  have ok : Build.document ⟨⟨0⟩, []⟩ Workspace.approval = .ok _ _ := rfl
  have contents := document_contents rfl ok
  exact ⟨rfl, _, _, ok, contents⟩

end Build
end Workflow
