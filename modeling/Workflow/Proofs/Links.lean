import Workflow.Proofs.Access
import Workflow.Proofs.Rendering

/-!
Links of documents. In every document that a graph comes to, and in every document within it, the
start and all links are names of entries of that same document; and where a transition refers to a
state by identity, the entry that its name leads to is the entry of that state.
-/

namespace Workflow

namespace Workspace

variable {w : Workspace}

/-- Whether the document of a level is closed and its links lead where the transitions do. -/
structure Linked (w : Workspace) (level : Level) (document : Json) : Prop where
  listed : document.keys = (Level.states level.entries).map fun s => (w.state s).name
  distinct : document.keys.Nodup
  start : ∃ name ∈ document.keys, document.field? "StartAt" = some (.string name)
  closed : ∀ entry ∈ document.entries, ∀ link ∈ entry.2.links,
    ∃ name ∈ document.keys, link.2 = .string name
  identified : ∀ s ∈ Level.states level.entries, ∃ entry,
    document.entries.lookup (w.state s).name = some entry ∧
    entry.links = (w.state s).shown.map (fun t => (t.1, .string (w.nameOf t.2))) ∧
    ∀ field t, (field, Target.state t) ∈ (w.state s).shown →
      ∃ target, document.entries.lookup (w.state t).name = some target ∧
        w.rendering level t = .ok target

theorem outgoing_of_shown {s : State} {t : Field × Target} (shown : t ∈ s.shown) :
    t ∈ s.outgoing := by
  unfold State.shown at shown
  split at shown
  · cases shown
  · exact shown

section Entries

variable {level : Level} {document : Document} (sound : w.Sound level)
  (distinct : (level.entries.map (·.1.name)).Nodup) (ok : w.document level = .ok document)
include sound distinct ok

theorem lookup_links {s : StateId} (listed : s ∈ Level.states level.entries) :
    ∃ entry, document.toJson.entries.lookup (w.state s).name = some entry ∧
      w.rendering level s = .ok entry ∧
      entry.links = (w.state s).shown.map (fun t => (t.1, .string (w.nameOf t.2))) := by
  obtain ⟨r, nested, rendered, -, levels, found⟩ := lookup_rendering sound distinct ok listed
  refine ⟨_, found, ?_, ?_⟩
  · have nested_ok := Outcome.mapM_eq_ok.mpr levels
    simp [rendering, rendered, nested_ok, bind, Except.bind, pure, Except.pure]
  · rw [Entry.links_toJson, links_of_entry rendered, List.map_map]
    rfl

theorem state_of_entry {name : String} {entry : Json}
    (member : (name, entry) ∈ document.toJson.entries) :
    ∃ s ∈ Level.states level.entries, (w.state s).name = name ∧
      document.toJson.entries.lookup name = some entry := by
  have known : name ∈ document.toJson.keys := List.mem_map_of_mem member
  rw [keys_document ok, sound.names_eq] at known
  obtain ⟨s, listed, named⟩ := List.mem_map.mp known
  have found := (Json.lookup_eq_some_iff_mem (nodup_keys distinct ok)).mpr member
  exact ⟨s, listed, named, found⟩

theorem linked_of_sound : w.Linked level document.toJson := by
  have keys : document.toJson.keys = (Level.states level.entries).map fun s => (w.state s).name :=
    (keys_document ok).trans sound.names_eq
  constructor
  case listed => exact keys
  case distinct => exact nodup_keys distinct ok
  case start =>
    obtain ⟨-, heading⟩ := document_rendered ok
    refine ⟨(w.state level.info.start).name, ?_, ?_⟩
    · rw [keys]
      exact List.mem_map_of_mem sound.start
    · rw [Document.startAt_toJson, heading]
      rfl
  case closed =>
    rintro ⟨name, entry⟩ member link leads
    obtain ⟨s, listed, rfl, found⟩ := state_of_entry sound distinct ok member
    obtain ⟨entry', found', -, links⟩ := lookup_links sound distinct ok listed
    obtain rfl := Option.some.inj (found.symm.trans found')
    rw [links] at leads
    obtain ⟨t, shown, rfl⟩ := List.mem_map.mp leads
    obtain ⟨target, there, same⟩ := sound.resolved s listed t (outgoing_of_shown shown)
    refine ⟨w.nameOf t.2, ?_, rfl⟩
    rw [keys_document ok, ← same]
    exact List.mem_map_of_mem there
  case identified =>
    intro s listed
    obtain ⟨entry, found, -, links⟩ := lookup_links sound distinct ok listed
    refine ⟨entry, found, links, ?_⟩
    intro field t shown
    -- A state that is referred to by identity is in the level, so its name leads to it.
    have leads : t ∈ (w.state s).successors :=
      List.mem_filterMap.mpr ⟨_, outgoing_of_shown shown, rfl⟩
    have listed := sound.closed s listed t leads
    obtain ⟨target, found, rendered, -⟩ := lookup_links sound distinct ok listed
    exact ⟨target, found, rendered⟩

end Entries

end Workspace

namespace Build

/-- Whenever a graph that was not compiled before comes to a document, that document and all
documents in it are closed, and their links lead where the transitions do. -/
theorem document_linked {w w' : Workspace} {g : GraphId} {document : Document}
    (fresh : (w.graph g).compiled = none) (ok : Build.document ⟨g, []⟩ w = .ok document w') :
    ∃ c, w.compile (w.graph g).label (w.graph g).start = .ok c ∧
      List.Forall₂ w.Linked ((w.graph g).level c).levels document.toJson.documents := by
  obtain ⟨c, compiled, -, rendered⟩ := document_eq_ok.mp ok
  rw [Workspace.compiled_of_fresh fresh] at compiled
  obtain ⟨sound, registered, names⟩ := Workspace.level_of_compile compiled
  have distinct : (((w.graph g).level c).preorder.map (·.name)).Nodup := names ▸ registered.distinct
  refine ⟨c, compiled, ?_⟩
  rw [Document.documents_toJson (Workspace.fits_of_sound rendered sound),
    List.forall₂_map_right_iff]
  refine List.Forall₂.imp ?_ ((List.forall₂_and_left _ _).mpr
    ⟨fun l within => And.intro (sound l within) (Level.distinct_of_mem_levels distinct within),
      Workspace.document_levels rendered⟩)
  rintro l d ⟨⟨sound, distinct⟩, rendered⟩
  exact Workspace.linked_of_sound sound distinct rendered

theorem approval_linked :
    (Workspace.approval.graph ⟨0⟩).compiled = none ∧
      ∃ document w' c, Build.document ⟨⟨0⟩, []⟩ Workspace.approval = .ok document w' ∧
        Workspace.approval.compile (Workspace.approval.graph ⟨0⟩).label
          (Workspace.approval.graph ⟨0⟩).start = .ok c ∧
        List.Forall₂ Workspace.approval.Linked ((Workspace.approval.graph ⟨0⟩).level c).levels
          document.toJson.documents := by
  have ok : Build.document ⟨⟨0⟩, []⟩ Workspace.approval = .ok _ _ := rfl
  obtain ⟨c, compiled, linked⟩ := document_linked rfl ok
  exact ⟨rfl, _, _, c, ok, compiled, linked⟩

end Build
end Workflow
