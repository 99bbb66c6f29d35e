/-!
Nested sequences: a sequence of entries, each with the sequences nested in it, in order. Graphs and
documents both have this form. Functions on them are folds; `induct` is the induction that goes with
a fold.
-/

namespace Workflow

inductive Nested (ι α : Type) where
  | node (info : ι) (entries : List (α × List (Nested ι α)))

namespace Nested

variable {ι κ α β γ : Type}

def info : Nested ι α → ι
  | node i _ => i

def entries : Nested ι α → List (α × List (Nested ι α))
  | node _ es => es

mutual
/-- Combines the entries of a sequence with what their nested sequences come to. -/
def fold (f : ι → List (α × List γ) → γ) : Nested ι α → γ
  | node i es => f i (foldEntries f es)

def foldEntries (f : ι → List (α × List γ) → γ) : List (α × List (Nested ι α)) → List (α × List γ)
  | [] => []
  | (a, nested) :: es => (a, foldAll f nested) :: foldEntries f es

def foldAll (f : ι → List (α × List γ) → γ) : List (Nested ι α) → List γ
  | [] => []
  | t :: ts => fold f t :: foldAll f ts
end

theorem foldAll_eq_map (f : ι → List (α × List γ) → γ) (ts : List (Nested ι α)) :
    foldAll f ts = ts.map (fold f) := by
  induction ts with
  | nil => simp [foldAll]
  | cons t ts ih => simp [foldAll, ih]

theorem foldEntries_eq_map (f : ι → List (α × List γ) → γ) (es : List (α × List (Nested ι α))) :
    foldEntries f es = es.map fun e => (e.1, e.2.map (fold f)) := by
  induction es with
  | nil => simp [foldEntries]
  | cons e es ih => simp [foldEntries, foldAll_eq_map, ih]

theorem fold_node (f : ι → List (α × List γ) → γ) (i : ι) (es : List (α × List (Nested ι α))) :
    fold f (node i es) = f i (es.map fun e => (e.1, e.2.map (fold f))) := by
  simp [fold, foldEntries_eq_map]

/-- What holds of a sequence as soon as it holds of those nested in it holds of every sequence. -/
theorem induct {motive : Nested ι α → Prop}
    (step : ∀ i es, (∀ e ∈ es, ∀ t ∈ e.2, motive t) → motive (node i es)) (t : Nested ι α) :
    motive t :=
  match t with
  | node i es => step i es fun e _ t _ => induct step t
termination_by sizeOf t
decreasing_by
  have h₁ := List.sizeOf_lt_of_mem ‹e ∈ es›
  have h₂ := List.sizeOf_lt_of_mem ‹t ∈ e.2›
  have h₃ : sizeOf e = 1 + sizeOf e.1 + sizeOf e.2 := by cases e; rfl
  simp only [node.sizeOf_spec]
  omega

/-- Changes the parts of a sequence and keeps its shape. -/
def map (f : ι → κ) (g : α → β) : Nested ι α → Nested κ β :=
  fold fun i es => node (f i) (es.map fun e => (g e.1, e.2))

/-- As `map` for a change of entries that may be refused. -/
def mapExcept {ε : Type} (f : ι → κ) (g : α → Except ε β) : Nested ι α → Except ε (Nested κ β) :=
  fold fun i es => do
    let changed ← es.mapM fun e => do
      let b ← g e.1
      let nested ← e.2.mapM id
      pure (b, nested)
    pure (node (f i) changed)

/-- All entries in order, each one before those nested in it. -/
def preorder : Nested ι α → List α :=
  fold fun _ es => es.flatMap fun e => e.1 :: e.2.flatten

mutual
/-- A sequence with all sequences nested in it at any depth, each one before those nested in it. -/
def levels : Nested ι α → List (Nested ι α)
  | node i es => node i es :: entryLevels es

def entryLevels : List (α × List (Nested ι α)) → List (Nested ι α)
  | [] => []
  | (_, nested) :: es => allLevels nested ++ entryLevels es

def allLevels : List (Nested ι α) → List (Nested ι α)
  | [] => []
  | t :: ts => levels t ++ allLevels ts
end

theorem allLevels_eq_flatMap (ts : List (Nested ι α)) : allLevels ts = ts.flatMap levels := by
  induction ts with
  | nil => simp [allLevels]
  | cons t ts ih => simp [allLevels, ih]

theorem entryLevels_eq_flatMap (es : List (α × List (Nested ι α))) :
    entryLevels es = es.flatMap fun e => e.2.flatMap levels := by
  induction es with
  | nil => simp [entryLevels]
  | cons e es ih => simp [entryLevels, allLevels_eq_flatMap, ih]

theorem levels_node (i : ι) (es : List (α × List (Nested ι α))) :
    levels (node i es) = node i es :: es.flatMap fun e => e.2.flatMap levels := by
  rw [levels, entryLevels_eq_flatMap]

theorem mem_levels_self (t : Nested ι α) : t ∈ t.levels := by
  obtain ⟨i, es⟩ := t
  rw [levels_node]
  exact List.mem_cons_self

/-- What lies within a sequence nested in an entry lies within the whole. -/
theorem mem_levels_of_nested {t s u : Nested ι α} {e : α × List (Nested ι α)}
    (entry : e ∈ t.entries) (nested : s ∈ e.2) (within : u ∈ s.levels) : u ∈ t.levels := by
  obtain ⟨i, es⟩ := t
  rw [levels_node]
  exact List.mem_cons_of_mem _
    (List.mem_flatMap.mpr ⟨e, entry, List.mem_flatMap.mpr ⟨s, nested, within⟩⟩)

theorem forall_mem_levels_node {motive : Nested ι α → Prop} {i : ι}
    {es : List (α × List (Nested ι α))} :
    (∀ t ∈ (node i es).levels, motive t) ↔
      motive (node i es) ∧ ∀ e ∈ es, ∀ t ∈ e.2, ∀ s ∈ t.levels, motive s := by
  simp only [levels_node, List.mem_cons, List.mem_flatMap, forall_eq_or_imp, forall_exists_index,
    and_imp]
  constructor
  · rintro ⟨top, nested⟩
    exact ⟨top, fun e entry t member s within => nested s e entry t member within⟩
  · rintro ⟨top, nested⟩
    exact ⟨top, fun s e entry t member within => nested e entry t member s within⟩

theorem map_node (f : ι → κ) (g : α → β) (i : ι) (es : List (α × List (Nested ι α))) :
    map f g (node i es) = node (f i) (es.map fun e => (g e.1, e.2.map (map f g))) := by
  rw [map, fold_node]
  simp only [List.map_map, Function.comp_def]

theorem preorder_node (i : ι) (es : List (α × List (Nested ι α))) :
    preorder (node i es) = es.flatMap fun e => e.1 :: e.2.flatMap preorder := by
  rw [preorder, fold_node, List.flatMap_map]
  simp only [List.flatMap_def]

theorem mapExcept_node {ε : Type} (f : ι → κ) (g : α → Except ε β) (i : ι)
    (es : List (α × List (Nested ι α))) :
    mapExcept f g (node i es) = (do
      let changed ← es.mapM fun e => do
        let b ← g e.1
        let nested ← e.2.mapM (mapExcept f g)
        pure (b, nested)
      pure (node (f i) changed)) := by
  rw [mapExcept, fold_node, List.mapM_map]
  simp only [Function.comp_def, List.mapM_map, id]

/-- What a sequence lists is in its preorder, in the same order. -/
theorem entries_sublist_preorder (t : Nested ι α) : (t.entries.map (·.1)).Sublist t.preorder := by
  obtain ⟨i, es⟩ := t
  rw [preorder_node]
  induction es with
  | nil => exact .slnil
  | cons e es ih =>
    rw [entries, List.map_cons, List.flatMap_cons, List.cons_append]
    exact .cons_cons _ (ih.trans (List.sublist_append_right _ _))

/-- The preorder of a sequence within another is a part of it. -/
theorem preorder_sublist_of_mem_levels {t u : Nested ι α} (within : u ∈ t.levels) :
    u.preorder.Sublist t.preorder := by
  induction t using induct with
  | step i es ih =>
    rw [levels_node] at within
    rcases List.mem_cons.mp within with rfl | nested
    · exact .refl _
    · obtain ⟨e, entry, nested⟩ := List.mem_flatMap.mp nested
      obtain ⟨t, member, within⟩ := List.mem_flatMap.mp nested
      have inner : t.preorder.Sublist (e.2.flatMap preorder) :=
        List.flatMap_def ▸ List.sublist_flatten_of_mem (List.mem_map_of_mem member)
      have outer : (e.1 :: e.2.flatMap preorder).Sublist (preorder (node i es)) := by
        rw [preorder_node, List.flatMap_def]
        exact List.sublist_flatten_of_mem (List.mem_map_of_mem entry)
      have part := inner.trans ((List.sublist_cons_self _ _).trans outer)
      exact (ih e entry t member within).trans part

end Nested
end Workflow
