import Mathlib.Tactic.IntervalCases
import Workflow.Proofs.Links
import Workflow.Proofs.Naming
import Workflow.Proofs.Termination

/-!
Documents over time. A graph is compiled once, at some moment of a history, and what it was compiled
to is kept but for its timeouts. Documents that are asked for later list states under the names of
that moment, while what is said of a state is read off the state as it is. They are closed as long
as the states of the graph are called as they were then and lead nowhere else.
-/

namespace Workflow

namespace Nested

variable {ι κ α β : Type}

theorem levels_map (f : ι → κ) (g : α → β) (t : Nested ι α) :
    (map f g t).levels = t.levels.map (map f g) := by
  induction t using induct with
  | step i es ih =>
    rw [map_node, levels_node, levels_node, List.map_cons, map_node, List.flatMap_map,
      List.map_flatMap]
    refine congrArg _ (List.flatMap_congr fun e entry => ?_)
    rw [List.flatMap_map, List.map_flatMap]
    exact List.flatMap_congr fun t member => ih e entry t member

theorem mem_levels_trans {s t u : Nested ι α} (inner : s ∈ t.levels) (outer : t ∈ u.levels) :
    s ∈ u.levels := by
  induction u using induct with
  | step i es ih =>
    rw [levels_node] at outer
    rcases List.mem_cons.mp outer with rfl | nested
    · exact inner
    · obtain ⟨e, entry, nested⟩ := List.mem_flatMap.mp nested
      obtain ⟨n, member, within⟩ := List.mem_flatMap.mp nested
      exact mem_levels_of_nested (t := .node i es) entry member (ih e entry n member within)

end Nested

namespace Level

theorem untimed_eq {level other : Level} (same : level.untimed = other.untimed) :
    level.info.start = other.info.start ∧ states level.entries = states other.entries ∧
      level.entries.map (fun e => (e.1, e.2.length)) =
        other.entries.map fun e => (e.1, e.2.length) := by
  obtain ⟨header, members⟩ := level
  obtain ⟨header', members'⟩ := other
  rw [untimed_node, untimed_node] at same
  obtain ⟨headers, entries⟩ := Nested.node.inj same
  have start := congrArg Header.start headers
  refine ⟨start, ?_, ?_⟩
  · have listed := congrArg (List.map (·.1.state)) entries
    rw [List.map_map, List.map_map] at listed
    exact listed
  · have counts := congrArg (List.map fun e => (e.1, e.2.length)) entries
    simp only [List.map_map, Function.comp_def, List.length_map] at counts
    exact counts

/-- Levels that differ in their timeouts alone have the same levels in them. -/
theorem exists_untimed {level other l : Level} (same : level.untimed = other.untimed)
    (within : l ∈ level.levels) : ∃ l' ∈ other.levels, untimed l = untimed l' := by
  have levels : level.levels.map untimed = other.levels.map untimed := by
    have inner := congrArg Nested.levels same
    simp only [untimed, Nested.levels_map] at inner
    exact inner
  have member : untimed l ∈ other.levels.map untimed := levels ▸ List.mem_map_of_mem within
  obtain ⟨l', within', same⟩ := List.mem_map.mp member
  exact ⟨l', within', same.symm⟩

end Level

namespace Graph

theorem untimed_level (g : Graph) (c : Compiled) :
    (g.level c).untimed = Level.untimed (.node ⟨g.start, g.label, none⟩ c.members) := by
  rw [level, Level.untimed_node, Level.untimed_node]
  rfl

/-- Graphs that differ in their timeouts alone start alike, are called alike and were compiled to
the same. -/
theorem untimed_eq {g other : Graph} (same : g.untimed = other.untimed) {c : Compiled}
    (kept : g.compiled = some c) : g.start = other.start ∧ g.label = other.label ∧
      ∃ c', other.compiled = some c' ∧ (g.level c).untimed =
        Level.untimed (.node ⟨g.start, g.label, none⟩ c'.members) := by
  obtain ⟨start, rest⟩ := Prod.mk.inj same
  obtain ⟨label, compiled⟩ := Prod.mk.inj rest
  refine ⟨start, label, ?_⟩
  rw [kept, Option.map_some] at compiled
  obtain ⟨c', kept', same⟩ := Option.map_eq_some_iff.mp compiled.symm
  refine ⟨c', kept', ?_⟩
  rw [start, label, ← untimed_level]
  exact (Prod.mk.inj same).1.symm

end Graph

namespace Runs

variable {u w : Workspace} {ops : List Operation} {g : GraphId}

/-- Whether what a graph is compiled to, its timeouts aside, is what it was compiled to at a moment
of a history: at present, if it was not compiled before. -/
def Compiles (u : Workspace) (ops : List Operation) (w : Workspace) (g : Graph) (c : Compiled) :
    Prop :=
  ∃ before later v c', ops = before ++ later ∧ Runs u before v ∧ Runs v later w ∧
    v.compile g.label g.start = .ok c' ∧
    (g.level c).untimed = Level.untimed (.node ⟨g.start, g.label, none⟩ c'.members) ∧
    (g.compiled = none → later = [])

/-- A graph that is compiled was so from the start, but for its timeouts, or it was compiled at a
moment of the history. -/
theorem compiled_origin (runs : Runs u ops w) (known : w.HasGraph g) {c : Compiled}
    (kept : (w.graph g).compiled = some c) :
    u.HasGraph g ∧ (w.graph g).untimed = (u.graph g).untimed ∨
      Compiles u ops w (w.graph g) c := by
  have old {later : List Operation} : (w.graph g).compiled = none → later = [] := by
    intro fresh
    rw [kept] at fresh
    cases fresh
  induction runs with
  | nil => exact .inl ⟨known, rfl⟩
  | @cons u w op ops within rest ih =>
    have here {c' : Compiled} (ok : u.compile (w.graph g).label (w.graph g).start = .ok c')
        (same : ((w.graph g).level c).untimed =
          Level.untimed (.node ⟨(w.graph g).start, (w.graph g).label, none⟩ c'.members)) :
        Compiles u (op :: ops) w (w.graph g) c :=
      ⟨[], op :: ops, u, c', rfl, .nil u, .cons within rest, ok, same, old⟩
    rcases ih known kept old with ⟨there, same⟩ | ⟨before, later, v, c', rfl, first, last, found⟩
    · obtain ⟨start, label, c', kept', level⟩ := Graph.untimed_eq same kept
      rcases Workspace.graph_cases within there with
        ⟨there, earlier⟩ | ⟨there, -, c₀, ok, now⟩ | ⟨-, -, ok⟩
      · exact .inl ⟨there, same.trans earlier⟩
      · rw [now] at start label kept'
        obtain rfl : c₀ = c' := Option.some.inj kept'
        rw [← start, ← label] at ok
        exact .inr (here ok level)
      · rw [← start, ← label] at ok
        exact .inr (here (ok c' kept') level)
    · exact .inr ⟨op :: before, later, v, c', rfl, .cons within first, last, found⟩

theorem compiles (runs : Runs {} ops w) (known : w.HasGraph g) {c : Compiled}
    (ok : w.compiled (w.graph g) = .ok c) : Compiles {} ops w (w.graph g) c := by
  cases kept : (w.graph g).compiled with
  | none =>
    rw [Workspace.compiled_of_fresh kept] at ok
    exact ⟨ops, [], w, c, (List.append_nil ops).symm, runs, .nil w, ok, Graph.untimed_level _ c,
      fun _ => rfl⟩
  | some c' =>
    rw [Workspace.compiled, kept] at ok
    obtain rfl := Except.ok.inj ok
    rcases runs.compiled_origin known kept with ⟨none, -⟩ | found
    · cases none
    · exact found

end Runs

namespace Json

/-- Whether the start of a document and the links of its entries are names of its entries. -/
structure Resolves (document : Json) : Prop where
  start : ∃ name ∈ document.keys, document.field? "StartAt" = some (.string name)
  links : ∀ entry ∈ document.entries, ∀ link ∈ entry.2.links,
    ∃ name ∈ document.keys, link.2 = .string name

end Json

namespace Workspace

variable {v w : Workspace}

/-- Whether a state is called as it was before and leads nowhere that it did not lead. -/
structure Steady (v w : Workspace) (s : StateId) : Prop where
  name : (w.state s).name = (v.state s).name
  targets : ∀ t ∈ (w.state s).outgoing, ∃ t' ∈ (v.state s).outgoing, t'.2 = t.2

theorem Steady.of_states (same : w.states = v.states) (s : StateId) : v.Steady w s := by
  have state := state_of_states same
  constructor
  case name => rw [state]
  case targets =>
    intro t leads
    exact ⟨t, state ▸ leads, rfl⟩

theorem keys_of_untimed {level other : Level} {document : Document}
    (same : level.untimed = other.untimed) (ok : w.document level = .ok document) :
    document.toJson.keys = other.entries.map (·.1.name) := by
  obtain ⟨-, -, entries⟩ := Level.untimed_eq same
  have names := congrArg (List.map (·.1.name)) entries
  rw [List.map_map, List.map_map] at names
  rw [keys_document ok]
  exact names

/-- The document of a level that was compiled before is closed if the states of the level are
steady. -/
theorem resolves_of_steady {level other : Level} {document : Document} (sound : v.Sound other)
    (same : level.untimed = other.untimed)
    (steady : ∀ s ∈ Level.states other.entries, v.Steady w s)
    (ok : w.document level = .ok document) : document.toJson.Resolves := by
  obtain ⟨start, states, -⟩ := Level.untimed_eq same
  obtain ⟨each, heading⟩ := document_rendered ok
  have keys := keys_of_untimed same ok
  constructor
  case start =>
    refine ⟨(w.state level.info.start).name, ?_, ?_⟩
    · rw [keys, sound.names_eq, start, (steady _ sound.start).name]
      exact List.mem_map_of_mem sound.start
    · rw [Document.startAt_toJson, heading]
      rfl
  case links =>
    intro entry member link leads
    rw [Document.entries_toJson] at member
    obtain ⟨r, listed, rfl⟩ := List.mem_map.mp member
    obtain ⟨e, entry, rendered⟩ := Outcome.exists_of_forall₂_right each listed
    rw [Entry.links_toJson, links_of_entry rendered.entry, List.map_map] at leads
    obtain ⟨t, shown, rfl⟩ := List.mem_map.mp leads
    have here : e.1.state ∈ Level.states other.entries :=
      states ▸ Level.mem_states.mpr ⟨e, entry, rfl⟩
    obtain ⟨t', led, target⟩ := (steady _ here).targets t (outgoing_of_shown shown)
    obtain ⟨e', there, named⟩ := sound.resolved _ here t' led
    refine ⟨w.nameOf t.2, ?_, rfl⟩
    have named : e'.1.name = w.nameOf t.2 := by
      rw [named, ← target]
      cases leads : t'.2 with
      | name name => rfl
      | state s =>
        have next : s ∈ (v.state e.1.state).successors :=
          List.mem_filterMap.mpr ⟨t', led, by rw [leads]; rfl⟩
        exact (steady s (sound.closed _ here s next)).name.symm
    rw [keys, ← named]
    exact List.mem_map_of_mem there

/-- An entry of a level that was compiled before is that of an explored state, with as many levels
nested in it. -/
theorem explored_of_untimed {level other l : Level} (sound : ∀ l ∈ other.levels, v.Sound l)
    (same : level.untimed = other.untimed) (within : l ∈ level.levels)
    {e : Member × List Level} (entry : e ∈ l.entries) :
    ∃ label e', v.Explored label e' ∧ e'.1 = e.1 ∧ e'.2.length = e.2.length := by
  obtain ⟨l', within', same⟩ := Level.exists_untimed same within
  obtain ⟨-, -, entries⟩ := Level.untimed_eq same
  have listed : (e.1, e.2.length) ∈ l'.entries.map fun e => (e.1, e.2.length) :=
    entries ▸ List.mem_map_of_mem entry
  obtain ⟨e', entry', equal⟩ := List.mem_map.mp listed
  obtain ⟨member, count⟩ := Prod.mk.inj equal
  exact ⟨_, e', (sound l' within').explored e' entry', member, count⟩

/-- Documents of levels that were compiled before have the form of documents, since states keep
their types. -/
theorem fits_of_untimed {level other : Level} {document : Document}
    (sound : ∀ l ∈ other.levels, v.Sound l) (same : level.untimed = other.untimed)
    (types : ∀ s, v.HasState s → (w.state s).type? = (v.state s).type?)
    (ok : w.document level = .ok document) : document.Fits := by
  intro d within r entry
  obtain ⟨l, within, ok⟩ := Outcome.exists_of_forall₂_right (document_levels ok) within
  obtain ⟨each, -⟩ := document_rendered ok
  obtain ⟨e, member, rendered⟩ := Outcome.exists_of_forall₂_right each entry
  obtain ⟨label, e', explored, state, count⟩ := explored_of_untimed sound same within member
  obtain ⟨content, -⟩ := entry_eq_ok rendered.entry
  have typed := type_of_content? content
  rw [types _ (state ▸ index_lt_of_complete explored.complete), ← state] at typed
  obtain ⟨r', entry', type⟩ :=
    entry_of_type typed (State.validate_eq_ok.mp explored.complete).bound
  rw [Entry.holds_iff, ← type, ← Entry.holds_iff, ← rendered.nested.length_eq, ← count]
  exact holds_of_explored explored entry'

/-- The documents in the document of a level are those of the levels in it. -/
theorem level_of_documents {level other : Level} {document : Document} {d : Json}
    (fits : document.Fits) (same : level.untimed = other.untimed)
    (ok : w.document level = .ok document) (member : d ∈ document.toJson.documents) :
    ∃ l d', ∃ l' ∈ other.levels, Level.untimed l = Level.untimed l' ∧ w.document l = .ok d' ∧
      d = d'.toJson := by
  rw [Document.documents_toJson fits] at member
  obtain ⟨d', within, rfl⟩ := List.mem_map.mp member
  obtain ⟨l, within, ok⟩ := Outcome.exists_of_forall₂_right (document_levels ok) within
  obtain ⟨l', within', same⟩ := Level.exists_untimed same within
  exact ⟨l, d', l', within', same, ok, rfl⟩

end Workspace

namespace Build

variable {w w' : Workspace} {ref : GraphRef}

theorem level_ok {level : Level} (ok : Build.level ref w = .ok level w') :
    ∃ c, w.compiled (w.graph ref.root) = .ok c ∧ w.keep ref.root c = w' ∧
      level = (Level.at? ref.path ((w.graph ref.root).level c)).getD
        ((w.graph ref.root).level c) := by
  simp only [Build.level, bind_eq_ok, compiled_eq_ok, get_eq_ok, pure_eq_ok] at ok
  obtain ⟨c, _, ⟨compiled, rfl⟩, _, _, ⟨rfl, rfl⟩, rfl, rfl⟩ := ok
  have same : ((w.keep ref.root c).graph ref.root).level c = (w.graph ref.root).level c := by
    rw [Graph.level, Graph.level, Workspace.header_keep]
  exact ⟨c, compiled, rfl, by rw [same]⟩

theorem mem_levels_of_level {level top : Level}
    (same : level = (Level.at? ref.path top).getD top) : level ∈ top.levels := by
  rw [same]
  cases down : Level.at? ref.path top with
  | none => exact Nested.mem_levels_self _
  | some level => exact Level.mem_levels_of_at? down

/-- A document is that of the level that is asked for, and reading off changes nothing. -/
theorem level_of_document {document : Document} (ok : Build.document ref w = .ok document w') :
    ∃ level, Build.level ref w = .ok level w' ∧ w.document level = .ok document := by
  simp only [Build.document, bind_eq_ok, get_eq_ok, lift_eq_ok] at ok
  obtain ⟨level, _, found, _, _, ⟨rfl, rfl⟩, rendered, rfl⟩ := ok
  obtain ⟨c, -, rfl, -⟩ := level_ok found
  exact ⟨level, found, rendered⟩

theorem document_ok {document : Document} (ok : Build.document ref w = .ok document w') :
    ∃ c level, w.compiled (w.graph ref.root) = .ok c ∧
      level ∈ ((w.graph ref.root).level c).levels ∧ w.document level = .ok document := by
  obtain ⟨level, found, rendered⟩ := level_of_document ok
  obtain ⟨c, compiled, -, same⟩ := level_ok found
  exact ⟨c, level, compiled, mem_levels_of_level same, rendered⟩

end Build

namespace Runs

variable {w w' : Workspace} {ops : List Operation} {ref : GraphRef} {document : Document}

/-- Documents have the form of documents, however late they are asked for. -/
theorem document_fits (runs : Runs {} ops w) (known : w.HasGraph ref.root)
    (ok : Build.document ref w = .ok document w') : document.Fits := by
  obtain ⟨c, level, compiled, within, rendered⟩ := Build.document_ok ok
  obtain ⟨before, later, v, c', -, -, last, ok, same, -⟩ := runs.compiles known compiled
  obtain ⟨-, -, sound⟩ := Workspace.compile_ok ok none
  obtain ⟨other, within', same⟩ := Level.exists_untimed same within
  have sound : ∀ l ∈ other.levels, v.Sound l :=
    fun l inside => sound l (Nested.mem_levels_trans inside within')
  exact Workspace.fits_of_untimed sound same (fun s there => last.type_eq there) rendered

/-- What is handed out of a graph was compiled at a moment of the history, which is the present if
the graph was not compiled before: what the graph holds, its timeouts aside, is what it came to
then. Its documents list states under their names of that moment, and all of them are closed if the
states of the graph have been steady since. -/
theorem document_resolves_while_steady (runs : Runs {} ops w) (known : w.HasGraph ref.root)
    (ok : Build.document ref w = .ok document w') :
    ∃ before later v c held, ops = before ++ later ∧ Runs {} before v ∧ Runs v later w ∧
      v.compile (w.graph ref.root).label (w.graph ref.root).start = .ok c ∧
      w.compiled (w.graph ref.root) = .ok held ∧
      ((w.graph ref.root).level held).untimed =
        Level.untimed (.node ⟨(w.graph ref.root).start, (w.graph ref.root).label, none⟩ c.members) ∧
      ((w.graph ref.root).compiled = none → later = []) ∧
      (∀ d ∈ document.toJson.documents, ∀ name ∈ d.keys,
        ∃ r ∈ c.registry, (v.state r.state).name = name) ∧
      ((∀ r ∈ c.registry, v.Steady w r.state) →
        ∀ d ∈ document.toJson.documents, d.Resolves) := by
  obtain ⟨c, level, compiled, within, rendered⟩ := Build.document_ok ok
  obtain ⟨before, later, v, c', split, first, last, ok, same, present⟩ :=
    runs.compiles known compiled
  obtain ⟨-, grown, sound⟩ := Workspace.compile_ok ok none
  obtain ⟨other, within', alike⟩ := Level.exists_untimed same within
  have sound {l : Level} (inside : l ∈ other.levels) : v.Sound l :=
    sound l (Nested.mem_levels_trans inside within')
  have entered {l : Level} {s : StateId} (inside : l ∈ other.levels)
      (listed : s ∈ Level.states l.entries) : ∃ r ∈ c'.registry, r.state = s := by
    have outer := Nested.mem_levels_trans inside within'
    have member := Level.mem_allStates_of_mem_levels outer listed
    rwa [← Level.map_state_registry, ← grown, List.mem_map] at member
  have fits : document.Fits :=
    Workspace.fits_of_untimed (fun l => sound) alike (fun s there => last.type_eq there) rendered
  refine ⟨before, later, v, c', c, split, first, last, ok, compiled, same, present, ?_, ?_⟩
  · intro d member name key
    obtain ⟨l, d', l', inside, same, rendered, rfl⟩ :=
      Workspace.level_of_documents fits alike rendered member
    rw [Workspace.keys_of_untimed same rendered, (sound inside).names_eq] at key
    obtain ⟨s, listed, rfl⟩ := List.mem_map.mp key
    obtain ⟨r, member, rfl⟩ := entered inside listed
    exact ⟨r, member, rfl⟩
  · intro steady d member
    obtain ⟨l, d', l', inside, same, rendered, rfl⟩ :=
      Workspace.level_of_documents fits alike rendered member
    refine Workspace.resolves_of_steady (sound inside) same ?_ rendered
    intro s listed
    obtain ⟨r, member, rfl⟩ := entered inside listed
    exact steady r member

/-- A graph is compiled and is given a timeout afterwards. -/
def retimed : List Operation :=
  [.edit (.scope "T" none), .edit (.state ⟨0⟩ "A" none {} (.pass {})),
    .edit (.state ⟨0⟩ "B" none {} .succeed), .edit (.wire ⟨0⟩ (.state ⟨1⟩)),
    .inquiry (.graph (some ⟨0⟩) "" .null), .inquiry (.level ⟨⟨0⟩, []⟩),
    .inquiry (.setTimeout ⟨⟨0⟩, []⟩ (.nat 5))]

/-- The document of a graph that was compiled before and has got a timeout since is closed. -/
theorem retimed_document_resolves :
    ∃ w document w', Runs {} retimed w ∧ w.HasGraph ⟨0⟩ ∧
      Build.document ⟨⟨0⟩, []⟩ w = .ok document w' ∧ (w.graph ⟨0⟩).compiled.isSome ∧
      document.toJson.keys = ["A", "B"] ∧
      document.toJson.field? "TimeoutSeconds" = some (.nat 5) ∧
      ∀ d ∈ document.toJson.documents, d.Resolves := by
  have runs : Runs {} retimed _ := .of_allows (by decide)
  have ok : Build.document ⟨⟨0⟩, []⟩ (Workspace.run {} retimed) = .ok _ _ := rfl
  obtain ⟨before, later, v, c, -, split, first, -, compiled, -, -, -, -, closed⟩ :=
    document_resolves_while_steady runs (by decide) ok
  refine ⟨_, _, _, runs, by decide, ok, rfl, rfl, rfl, closed fun r _ => .of_states ?_ r.state⟩
  obtain rfl := first.eq_run
  have taken : before = retimed.take before.length := by rw [split, List.take_left]
  have short : before.length ≤ 7 := by
    have total := congrArg List.length split
    rw [List.length_append] at total
    change 7 = _ at total
    omega
  rw [taken] at compiled ⊢
  generalize before.length = n at *
  -- Nothing compiles before the first state leads on, and from then on states stay as they are.
  interval_cases n
  · cases compiled
  · cases compiled
  · cases compiled
  · cases compiled
  all_goals rfl

/-- The start of a graph gets another name after the graph was compiled. -/
def renamedStart : List Operation :=
  [.edit (.scope "T" none), .edit (.state ⟨0⟩ "A" none {} (.pass {})), .edit (.stop ⟨0⟩),
    .inquiry (.graph (some ⟨0⟩) "" .null), .inquiry (.level ⟨⟨0⟩, []⟩), .edit (.rename ⟨0⟩ "B")]

def present : { c : Condition // c.Made } :=
  ⟨.compare "$.x" "IsPresent" (.bool true),
    .comparison (rfl : Condition.comparison (.string "$.x") "IsPresent" (.bool true) = .ok _)⟩

/-- A choice gets a rule after its graph was compiled. -/
def lateRule : List Operation :=
  [.edit (.scope "T" none), .edit (.state ⟨0⟩ "C" none {} .choice),
    .edit (.state ⟨0⟩ "A" none {} .succeed), .edit (.rule ⟨0⟩ (.ok present) (.state ⟨1⟩)),
    .inquiry (.graph (some ⟨0⟩) "" .null), .inquiry (.level ⟨⟨0⟩, []⟩),
    .edit (.rule ⟨0⟩ (.ok present) (.name "Nowhere"))]

/-- A document that is asked for late can refer to nothing: by its start, if that was renamed since
the graph was compiled, or by a rule that was added since. -/
theorem late_document_dangling :
    (∃ w document w', Runs {} renamedStart w ∧ Build.document ⟨⟨0⟩, []⟩ w = .ok document w' ∧
      document.toJson.keys = ["A"] ∧ document.toJson.field? "StartAt" = some (.string "B") ∧
      ¬ document.toJson.Resolves) ∧
    ∃ w document w', Runs {} lateRule w ∧ Build.document ⟨⟨0⟩, []⟩ w = .ok document w' ∧
      document.toJson.keys = ["C", "A"] ∧
      (∃ entry ∈ document.toJson.entries, (Field.choices, .string "Nowhere") ∈ entry.2.links) ∧
      ¬ document.toJson.Resolves := by
  have renamed : Runs {} renamedStart _ := .of_allows (by decide)
  have ruled : Runs {} lateRule _ := .of_allows (by decide)
  constructor
  · refine ⟨_, _, _, renamed, rfl, rfl, rfl, ?_⟩
    rintro ⟨⟨name, member, same⟩, -⟩
    change name ∈ ["A"] at member
    cases same
    exact absurd member (by decide)
  · have dangling : (Field.choices, Json.string "Nowhere") ∈
        [(Field.choices, Json.string "A"), (Field.choices, Json.string "Nowhere")] := by simp
    refine ⟨_, _, _, ruled, rfl, rfl, ⟨_, List.mem_cons_self, dangling⟩, ?_⟩
    rintro ⟨-, links⟩
    obtain ⟨name, member, same⟩ := links _ List.mem_cons_self _ dangling
    change name ∈ ["C", "A"] at member
    cases same
    exact absurd member (by decide)

end Runs
end Workflow
