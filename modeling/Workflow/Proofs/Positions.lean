import Mathlib.Data.List.Flatten
import Workflow.Proofs.Compilation

/-!
Where a state is in a compiled graph. Going down to a level of the unrolled graph of a start leads
to the compiled level that starts there, and a state that is registered once is at one place only.
-/

namespace Workflow

namespace Level

/-- The states of a level and of all levels nested in it. -/
def allStates (level : Level) : List StateId := level.preorder.map (·.state)

theorem allStates_node (header : Header) (members : Members) :
    allStates (.node header members) =
      members.flatMap fun e => e.1.state :: e.2.flatMap allStates := by
  rw [allStates, Nested.preorder_node, List.map_flatMap]
  simp only [List.map_cons, List.map_flatMap]
  rfl

theorem members_registry (level : Level) :
    level.registry.map (fun r => (⟨r.name, r.state⟩ : Member)) = level.preorder := by
  induction level using Nested.induct with
  | step header members ih =>
    rw [registry_eq, Nested.preorder_node, registrations, List.map_flatMap]
    refine List.flatMap_congr fun e member => ?_
    rw [List.map_cons, List.map_flatMap]
    exact congrArg _ (List.flatMap_congr fun l nested => ih e member l nested)

theorem map_state_registry (level : Level) : level.registry.map (·.state) = level.allStates := by
  rw [allStates, ← members_registry, List.map_map]
  rfl

theorem map_name_registry (level : Level) :
    level.registry.map (·.name) = level.preorder.map (·.name) := by
  rw [← members_registry, List.map_map]
  rfl

theorem mem_allStates_of_mem_levels {level l : Level} {s : StateId} (within : l ∈ level.levels)
    (member : s ∈ states l.entries) : s ∈ level.allStates := by
  obtain ⟨e, entry, rfl⟩ := mem_states.mp member
  have listed := l.entries_sublist_preorder.subset (List.mem_map_of_mem entry)
  exact List.mem_map_of_mem ((Nested.preorder_sublist_of_mem_levels within).subset listed)

theorem nestedIn_eq {members : Members} {s : StateId} (listed : s ∈ states members) :
    ∃ e ∈ members, e.1.state = s ∧ nestedIn members s = e.2 := by
  cases entry : members.find? fun e => e.1.state = s with
  | none =>
    obtain ⟨e, member, same⟩ := mem_states.mp listed
    exact absurd same (by simpa using List.find?_eq_none.mp entry e member)
  | some e =>
    exact ⟨e, List.mem_of_find?_eq_some entry, by simpa using List.find?_some entry,
      by rw [nestedIn, entry]; rfl⟩

theorem at?_cons_eq_some {level found : Level} {s : StateId} {i : Nat} {path : LevelPath}
    (down : at? ((s, i) :: path) level = some found) :
    ∃ e ∈ level.entries, e.1.state = s ∧ ∃ nested, e.2[i]? = some nested ∧
      at? path nested = some found := by
  obtain ⟨nested, step, rest⟩ := Option.bind_eq_some_iff.mp down
  unfold nestedIn at step
  cases entry : level.entries.find? fun e => e.1.state = s with
  | none => simp [entry] at step
  | some e =>
    rw [entry] at step
    exact ⟨e, List.mem_of_find?_eq_some entry, by simpa using List.find?_some entry, nested, step,
      rest⟩

theorem at?_append (p q : LevelPath) (level : Level) :
    at? (p ++ q) level = (at? p level).bind (at? q) := by
  induction p generalizing level with
  | nil => rfl
  | cons step p ih =>
    obtain ⟨s, i⟩ := step
    have rest : at? (p ++ q) = fun level => (at? p level).bind (at? q) := funext ih
    simp only [List.cons_append, at?, Option.bind_assoc, rest]

theorem mem_levels_of_at? {path : LevelPath} {level found : Level}
    (down : at? path level = some found) : found ∈ level.levels := by
  induction path generalizing level with
  | nil =>
    cases down
    exact Nested.mem_levels_self _
  | cons step path ih =>
    obtain ⟨s, i⟩ := step
    obtain ⟨e, entry, -, nested, at_i, rest⟩ := at?_cons_eq_some down
    exact Nested.mem_levels_of_nested entry (List.mem_of_getElem? at_i) (ih rest)

theorem mem_allStates_of_at? {path : LevelPath} {level found : Level} {s : StateId}
    (down : at? path level = some found) (member : s ∈ states found.entries) :
    s ∈ level.allStates :=
  mem_allStates_of_mem_levels (mem_levels_of_at? down) member

/-- Items whose parts are all distinct share no part. -/
theorem index_unique {α β : Type} {f : α → List β} {items : List α} {i j : Nat} {a b : α} {x : β}
    (nodup : (items.flatMap f).Nodup) (ha : items[i]? = some a) (hb : items[j]? = some b)
    (xa : x ∈ f a) (xb : x ∈ f b) : i = j := by
  have apart := List.pairwise_iff_getElem.mp (List.nodup_flatMap.mp nodup).2
  obtain ⟨hi, rfl⟩ := List.getElem?_eq_some_iff.mp ha
  obtain ⟨hj, rfl⟩ := List.getElem?_eq_some_iff.mp hb
  rcases Nat.lt_trichotomy i j with less | equal | more
  · exact absurd xb (apart i j hi hj less xa)
  · exact equal
  · exact absurd xa (apart j i hj hi more xb)

theorem item_unique {α β : Type} {f : α → List β} {items : List α} {a b : α} {x : β}
    (nodup : (items.flatMap f).Nodup) (ha : a ∈ items) (hb : b ∈ items) (xa : x ∈ f a)
    (xb : x ∈ f b) : a = b := by
  obtain ⟨i, hi⟩ := List.getElem?_of_mem ha
  obtain ⟨j, hj⟩ := List.getElem?_of_mem hb
  obtain rfl := index_unique nodup hi hj xa xb
  exact Option.some.inj (hi.symm.trans hj)

section Distinct

variable {level : Level} (nodup : level.allStates.Nodup)
include nodup

/-- Entries that a state comes up in, be it in a level nested in them, are one entry. -/
theorem entry_unique {e e' : Member × List Level} {s : StateId} (entry : e ∈ level.entries)
    (entry' : e' ∈ level.entries) (here : s ∈ e.1.state :: e.2.flatMap allStates)
    (there : s ∈ e'.1.state :: e'.2.flatMap allStates) : e = e' := by
  obtain ⟨header, members⟩ := level
  rw [allStates_node] at nodup
  exact item_unique nodup entry entry' here there

theorem nodup_entry {e : Member × List Level} (entry : e ∈ level.entries) :
    e.1.state ∉ e.2.flatMap allStates ∧ (e.2.flatMap allStates).Nodup := by
  obtain ⟨header, members⟩ := level
  rw [allStates_node] at nodup
  exact List.nodup_cons.mp ((List.nodup_flatMap.mp nodup).1 e entry)

theorem not_mem_nested {e : Member × List Level} {nested : Level} {s : StateId}
    (listed : s ∈ states level.entries) (entry : e ∈ level.entries) (within : nested ∈ e.2) :
    s ∉ nested.allStates := by
  intro below
  obtain ⟨e', entry', rfl⟩ := mem_states.mp listed
  have inner : e'.1.state ∈ e.2.flatMap allStates := List.mem_flatMap.mpr ⟨nested, within, below⟩
  obtain rfl := entry_unique nodup entry entry' (List.mem_cons_of_mem _ inner) List.mem_cons_self
  exact (nodup_entry nodup entry).1 inner

end Distinct

/-- In a level whose states are distinct each of them is listed at one place. -/
theorem path_unique {p q : LevelPath} {level first second : Level} {s : StateId}
    (nodup : level.allStates.Nodup) (down : at? p level = some first)
    (down' : at? q level = some second) (member : s ∈ states first.entries)
    (member' : s ∈ states second.entries) : p = q := by
  induction p generalizing q level with
  | nil =>
    cases down
    cases q with
    | nil => rfl
    | cons step q =>
      obtain ⟨t, j⟩ := step
      obtain ⟨e, entry, -, nested, at_j, rest⟩ := at?_cons_eq_some down'
      exact absurd (mem_allStates_of_at? rest member')
        (not_mem_nested nodup member entry (List.mem_of_getElem? at_j))
  | cons step p ih =>
    obtain ⟨t, i⟩ := step
    obtain ⟨e, entry, rfl, nested, at_i, rest⟩ := at?_cons_eq_some down
    have below := mem_allStates_of_at? rest member
    cases q with
    | nil =>
      cases down'
      exact absurd below (not_mem_nested nodup member' entry (List.mem_of_getElem? at_i))
    | cons step q =>
      obtain ⟨t, j⟩ := step
      obtain ⟨e', entry', rfl, nested', at_j, rest'⟩ := at?_cons_eq_some down'
      have below' := mem_allStates_of_at? rest' member'
      obtain rfl : e = e' := entry_unique nodup entry entry'
        (List.mem_cons_of_mem _ (List.mem_flatMap.mpr ⟨_, List.mem_of_getElem? at_i, below⟩))
        (List.mem_cons_of_mem _ (List.mem_flatMap.mpr ⟨_, List.mem_of_getElem? at_j, below'⟩))
      have distinct := (nodup_entry nodup entry).2
      obtain rfl := index_unique distinct at_i at_j below below'
      obtain rfl : nested = nested' := Option.some.inj (at_i.symm.trans at_j)
      rw [ih ((List.nodup_flatMap.mp distinct).1 _ (List.mem_of_getElem? at_i)) rest rest']

theorem distinct_of_mem_levels {level l : Level}
    (distinct : (level.preorder.map (·.name)).Nodup) (within : l ∈ level.levels) :
    (l.entries.map (·.1.name)).Nodup := by
  have part := l.entries_sublist_preorder.trans (Nested.preorder_sublist_of_mem_levels within)
  have names := part.map (·.name)
  rw [List.map_map] at names
  exact distinct.sublist names

end Level

theorem State.nestedGraphs_starts (s : State) (label : String) :
    (s.nestedGraphs label).map (·.2) = s.nestedStarts := by
  unfold nestedGraphs
  split
  · simp [Function.comp_def]
  · simp [List.map_map, Function.comp_def]

namespace Workspace

variable {w : Workspace}

theorem Explored.nested_starts {label : String} {e : Member × List Level}
    (explored : w.Explored label e) :
    e.2.map (·.info.start) = (w.state e.1.state).nestedStarts := by
  have starts := congrArg (List.map Header.start) explored.nested
  rw [List.map_map, List.map_map] at starts
  exact starts.trans (State.nestedGraphs_starts _ label)

/-- A compiled level lists exactly what can be reached from its start. -/
theorem Sound.mem_states_iff {level : Level} (sound : w.Sound level) {s : StateId} :
    s ∈ Level.states level.entries ↔ w.Reaches level.info.start s := by
  refine ⟨sound.reached s, fun reached => ?_⟩
  induction reached with
  | refl => exact sound.start
  | tail _ leads ih => exact sound.closed _ ih _ leads

/-- A compiled graph has the level of every start that it unrolls into. -/
theorem Unrolls.at? {level : Level} (sound : ∀ l ∈ level.levels, w.Sound l) {path : LevelPath}
    {first : StateId} (unrolls : w.Unrolls level.info.start path first) :
    ∃ l, Level.at? path level = some l ∧ l ∈ level.levels ∧ l.info.start = first := by
  generalize same : level.info.start = start at unrolls
  induction unrolls with
  | top => exact ⟨level, rfl, Nested.mem_levels_self _, same⟩
  | @nested path first s next i _ reaches starts ih =>
    obtain ⟨l, down, within, rfl⟩ := ih
    have listed := (sound l within).mem_states_iff.mpr reaches
    obtain ⟨e, entry, rfl, nested⟩ := Level.nestedIn_eq listed
    rw [← ((sound l within).explored e entry).nested_starts, List.getElem?_map,
      Option.map_eq_some_iff] at starts
    obtain ⟨n, at_i, rfl⟩ := starts
    have down' : Level.at? (path ++ [(e.1.state, i)]) level = some n := by
      rw [Level.at?_append, down]
      simp [Level.at?, nested, at_i]
    exact ⟨n, down', Level.mem_levels_of_at? down', rfl⟩

theorem Unrolls.trans {start first next : StateId} {p q : LevelPath}
    (outer : w.Unrolls start p first) (inner : w.Unrolls first q next) :
    w.Unrolls start (p ++ q) next := by
  induction inner with
  | top => rwa [List.append_nil]
  | nested _ reaches starts ih =>
    rw [← List.append_assoc]
    exact .nested ih reaches starts

/-- The states of a compiled graph are those that come up when its start is unrolled. -/
theorem mem_allStates_iff {level : Level} (sound : ∀ l ∈ level.levels, w.Sound l) {s : StateId} :
    s ∈ level.allStates ↔ w.Occurs level.info.start s := by
  constructor
  · intro member
    induction level using Nested.induct with
    | step header members ih =>
      obtain ⟨top, nested⟩ := Nested.forall_mem_levels_node.mp sound
      rw [Level.allStates_node] at member
      obtain ⟨e, entry, inside⟩ := List.mem_flatMap.mp member
      have reaches : w.Reaches header.start e.1.state :=
        top.reached _ (Level.mem_states.mpr ⟨e, entry, rfl⟩)
      rcases List.mem_cons.mp inside with rfl | below
      · exact ⟨[], header.start, .top, reaches⟩
      · obtain ⟨l, within, below⟩ := List.mem_flatMap.mp below
        obtain ⟨path, first, unrolls, later⟩ := ih e entry l within (nested e entry l within) below
        obtain ⟨i, at_i⟩ := List.getElem?_of_mem within
        have starts : (w.state e.1.state).nestedStarts[i]? = some l.info.start := by
          rw [← (top.explored e entry).nested_starts, List.getElem?_map, at_i]
          rfl
        have step : w.Unrolls header.start [(e.1.state, i)] l.info.start :=
          .nested .top reaches starts
        exact ⟨_, first, step.trans unrolls, later⟩
  · rintro ⟨path, first, unrolls, reaches⟩
    obtain ⟨l, down, within, rfl⟩ := unrolls.at? sound
    exact Level.mem_allStates_of_at? down ((sound l within).mem_states_iff.mpr reaches)

/-- The levels of a compiled graph are sound, and its states are registered in the order in which
they are listed. -/
theorem level_of_compile {g : Graph} {c : Compiled} (ok : w.compile g.label g.start = .ok c) :
    (∀ l ∈ (g.level c).levels, w.Sound l) ∧ w.Registered c.registry ∧
      c.registry.map (·.name) = (g.level c).preorder.map (·.name) := by
  obtain ⟨registered, grown, sound⟩ := compile_ok ok g.timeout
  refine ⟨sound, registered, ?_⟩
  rw [grown, Level.map_name_registry]
  rfl

theorem states_of_compile {g : Graph} {c : Compiled} (ok : w.compile g.label g.start = .ok c) :
    c.registry.map (·.state) = (g.level c).allStates := by
  obtain ⟨-, grown, -⟩ := compile_ok ok g.timeout
  rw [grown, Level.map_state_registry]
  rfl

end Workspace
end Workflow
