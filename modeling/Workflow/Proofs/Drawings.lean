import Workflow.Drawing.Tree
import Workflow.Proofs.Outlines

/-!
Drawings as rows of trees. Every row of a drawing hangs at a place, which the groups of characters
that the row starts with spell, and what the row shows cannot disturb them. The depths of the places
are enough to tell what hangs beneath what, so the shape of what was drawn is read back from them,
whatever the rows show.
-/

namespace Workflow

/-- Whether a text stands on one line. -/
def Unbroken (text : String) : Prop := '\n' ∉ text.toList

instance (text : String) : Decidable (Unbroken text) := inferInstanceAs (Decidable (_ ∉ _))

namespace Drawing

/-- An ordered tree. -/
inductive RoseTree (α : Type) where
  | node (label : α) (beneath : List (RoseTree α))

namespace RoseTree

variable {α : Type}

def label : RoseTree α → α
  | node a _ => a

def beneath : RoseTree α → List (RoseTree α)
  | node _ ts => ts

/-- A tree without its labels. -/
def shape : RoseTree α → RoseTree Unit
  | node _ ts => node () (ts.map shape)

/-- What holds of a tree as soon as it holds of those beneath it holds of every tree. -/
theorem induct {motive : RoseTree α → Prop}
    (step : ∀ a ts, (∀ t ∈ ts, motive t) → motive (node a ts)) (t : RoseTree α) : motive t :=
  match t with
  | node a ts => step a ts fun t _ => induct step t

theorem shape_node (a : α) (ts : List (RoseTree α)) :
    (node a ts).shape = node () (ts.map shape) := by
  rw [shape]

end RoseTree

/-- Where a row hangs: for each item above it, outermost first, whether another item hangs beside
that one further down, and whether the row is the last that hangs where it does. -/
structure Place where
  bars : List Bool
  last : Bool
deriving DecidableEq

namespace Place

def under (bar : Bool) (p : Place) : Place := { p with bars := bar :: p.bars }

def depth (p : Place) : Nat := p.bars.length

def bar (on : Bool) : String := if on then "│   " else "    "

def connector (last : Bool) : String := if last then "└── " else "├── "

/-- The groups of characters that say where a row hangs. -/
def text (p : Place) : String := p.bars.foldr (fun on rest => bar on ++ rest) (connector p.last)

/-- The place of a row, read off the groups of four characters that it starts with. -/
def read? : List Char → Option Place
  | '├' :: '─' :: '─' :: ' ' :: _ => some ⟨[], false⟩
  | '└' :: '─' :: '─' :: ' ' :: _ => some ⟨[], true⟩
  | '│' :: ' ' :: ' ' :: ' ' :: rest => (read? rest).map (under true)
  | ' ' :: ' ' :: ' ' :: ' ' :: rest => (read? rest).map (under false)
  | _ => none

@[simp]
theorem text_under (on : Bool) (p : Place) : (p.under on).text = bar on ++ p.text := rfl

/-- Whatever a row shows, its place is read off its start. -/
theorem read?_text (p : Place) (shown : String) :
    read? (p.text ++ shown).toList = some p := by
  obtain ⟨bars, last⟩ := p
  induction bars with
  | nil => cases last <;> simp [text, connector, read?]
  | cons on bars ih =>
    have step : read? (bar on ++ (text ⟨bars, last⟩ ++ shown)).toList =
        (read? (text ⟨bars, last⟩ ++ shown).toList).map (under on) := by
      cases on <;> simp [bar, read?]
    change read? (text (under on ⟨bars, last⟩) ++ shown).toList = _
    rw [text_under, String.append_assoc, step, ih]
    rfl

end Place

section Rows

variable {α : Type}

mutual
/-- The rows of a tree that is the last to hang where it does, or is not. -/
def RoseTree.rows (last : Bool) : RoseTree α → List (Place × α)
  | .node label beneath =>
    (⟨[], last⟩, label) :: (rows beneath).map fun row => (row.1.under !last, row.2)

/-- The rows of trees that hang beside one another: each tree with what hangs beneath it. -/
def rows : List (RoseTree α) → List (Place × α)
  | [] => []
  | t :: rest => t.rows rest.isEmpty ++ rows rest
end

theorem rows_nil : rows ([] : List (RoseTree α)) = [] := by rw [rows]

theorem rows_cons (t : RoseTree α) (rest : List (RoseTree α)) :
    rows (t :: rest) = (⟨[], rest.isEmpty⟩, t.label) ::
      (rows t.beneath).map (fun row => (row.1.under !rest.isEmpty, row.2)) ++ rows rest := by
  obtain ⟨label, beneath⟩ := t
  rw [rows, RoseTree.rows]
  rfl

/-- Rows show each tree before what hangs beneath it. -/
theorem map_snd_rows (trees : List (RoseTree α)) : (rows trees).map Prod.snd =
    trees.flatMap fun t => t.label :: (rows t.beneath).map Prod.snd := by
  induction trees with
  | nil => rw [rows_nil, List.map_nil, List.flatMap_nil]
  | cons t rest ih =>
    rw [rows_cons, List.map_append, List.map_cons, List.map_map, ih, List.flatMap_cons]
    rfl

/-- Reads trees without their labels from the depths of their rows: beneath a row hangs what follows
it for as long as it is deeper. -/
def grow : List Nat → List (RoseTree Unit)
  | [] => []
  | depth :: rest =>
    .node () (grow (rest.takeWhile (depth < ·))) :: grow (rest.dropWhile (depth < ·))
termination_by depths => depths.length
decreasing_by
  · exact Nat.lt_succ_of_le (List.takeWhile_sublist _).length_le
  · exact Nat.lt_succ_of_le (List.dropWhile_sublist _).length_le

/-- It does not matter how deep the rows are, only how they compare. -/
theorem grow_map_succ (depths : List Nat) : grow (depths.map (· + 1)) = grow depths := by
  induction depths using grow.induct with
  | case1 => rfl
  | case2 depth rest inner outer =>
    rw [List.map_cons, grow, grow, List.takeWhile_map, List.dropWhile_map]
    have same : ((fun d => decide (depth + 1 < d)) ∘ (· + 1)) = fun d => decide (depth < d) :=
      funext fun d => decide_eq_decide.mpr Nat.add_lt_add_iff_right
    rw [same, inner, outer]

def depths (trees : List (RoseTree α)) : List Nat := (rows trees).map (·.1.depth)

theorem depths_cons (t : RoseTree α) (rest : List (RoseTree α)) :
    depths (t :: rest) = 0 :: (depths t.beneath).map (· + 1) ++ depths rest := by
  rw [depths, rows_cons]
  simp [depths, Function.comp_def, Place.depth, Place.under]

/-- Trees are read back if what hangs beneath each of them is. -/
theorem grow_depths_of {trees : List (RoseTree α)}
    (beneath : ∀ t ∈ trees, grow (depths t.beneath) = t.beneath.map RoseTree.shape) :
    grow (depths trees) = trees.map RoseTree.shape := by
  induction trees with
  | nil => simp [depths, rows_nil, grow]
  | cons t rest ih =>
    obtain ⟨first, others⟩ := List.forall_mem_cons.mp beneath
    have deeper : ∀ depth ∈ (depths t.beneath).map (· + 1), decide (0 < depth) := by simp
    -- What hangs beside the tree starts at no depth again, which ends what hangs beneath it.
    have beside : (depths rest).takeWhile (0 < ·) = [] ∧
        (depths rest).dropWhile (0 < ·) = depths rest := by
      cases rest with
      | nil => simp [depths, rows_nil]
      | cons t rest => simp [depths_cons]
    rw [depths_cons, List.cons_append, grow, List.takeWhile_append_of_pos deeper,
      List.dropWhile_append_of_pos deeper, beside.1, beside.2, List.append_nil, grow_map_succ,
      first, ih others, List.map_cons]
    obtain ⟨a, ts⟩ := t
    rw [RoseTree.shape_node, RoseTree.beneath]

/-- Trees are read back from the depths of their rows. -/
theorem grow_depths (trees : List (RoseTree α)) :
    grow (depths trees) = trees.map RoseTree.shape := by
  have each (t : RoseTree α) : grow (depths t.beneath) = t.beneath.map RoseTree.shape := by
    induction t using RoseTree.induct with
    | step a ts ih => exact grow_depths_of ih
  exact grow_depths_of fun t _ => each t

end Rows

/-- What a row of a drawing shows: a state or a document nested in one. -/
inductive Item where
  | state (line : StateLine)
  | document (caption : Caption)

def Item.text (style : Style) : Item → String
  | state line => line.text style
  | document caption => caption.text style

/-- A nested document with its states beneath it, and beneath each of them what is nested in it. -/
def Outline.tree : Outline → RoseTree Item :=
  Nested.fold fun caption states =>
    .node (.document caption) (states.map fun e => .node (.state e.1) e.2)

/-- The trees that a drawing of states shows, one for each of them. -/
def trees (states : List (StateLine × List Outline)) : List (RoseTree Item) :=
  states.map fun e => .node (.state e.1) (e.2.map Outline.tree)

/-- What is shown of a nested document, row by row. -/
def Outline.items : Outline → List Item :=
  Nested.fold fun caption states =>
    .document caption :: states.flatMap fun e => .state e.1 :: e.2.flatten

/-- What is shown of states, row by row: each state in order, followed by each document nested in it
with its states. -/
def items (states : List (StateLine × List Outline)) : List Item :=
  states.flatMap fun e => .state e.1 :: e.2.flatMap Outline.items

theorem Outline.tree_node (caption : Caption) (states : List (StateLine × List Outline)) :
    Outline.tree (.node caption states) = .node (.document caption) (trees states) := by
  rw [Outline.tree, Nested.fold_node, List.map_map]
  rfl

theorem Outline.items_node (caption : Caption) (states : List (StateLine × List Outline)) :
    Outline.items (.node caption states) = .document caption :: Drawing.items states := by
  rw [Outline.items, Nested.fold_node, List.flatMap_map]
  simp only [Drawing.items, List.flatMap_def]
  rfl

/-- The rows of states show the states if this is so of what is nested in them. -/
theorem map_snd_trees {states : List (StateLine × List Outline)}
    (nested : ∀ e ∈ states, ∀ o ∈ e.2,
      o.tree.label :: (rows o.tree.beneath).map Prod.snd = o.items) :
    (rows (trees states)).map Prod.snd = items states := by
  rw [map_snd_rows, trees, List.flatMap_map, items]
  refine List.flatMap_congr fun e entry => congrArg (Item.state e.1 :: ·) ?_
  change (rows (e.2.map Outline.tree)).map Prod.snd = e.2.flatMap Outline.items
  rw [map_snd_rows, List.flatMap_map]
  exact List.flatMap_congr (nested e entry)

theorem Outline.items_eq (o : Outline) :
    o.tree.label :: (rows o.tree.beneath).map Prod.snd = o.items := by
  induction o using Nested.induct with
  | step caption states ih =>
    rw [Outline.tree_node, Outline.items_node]
    exact congrArg (Item.document caption :: ·) (map_snd_trees ih)

/-- The line of a row. -/
def rowText (style : Style) (row : Place × Item) : String := row.1.text ++ row.2.text style

/-- The lines of trees that hang beside one another. -/
def printed (style : Style) (trees : List (RoseTree Item)) : List String :=
  (rows trees).map (rowText style)

theorem hang_cons (head : String) (lines : List String) (rest : List (String × List String)) :
    hang ((head, lines) :: rest) = (Place.connector rest.isEmpty ++ head) ::
      lines.map (Place.bar (!rest.isEmpty) ++ ·) ++ hang rest := by
  cases rest with
  | nil => simp [hang, Place.connector, Place.bar]
  | cons next rest => simp [hang, Place.connector, Place.bar]

/-- Lines are hung where the rows hang. -/
theorem hang_printed (style : Style) (trees : List (RoseTree Item)) :
    hang (trees.map fun t => (t.label.text style, printed style t.beneath)) =
      printed style trees := by
  induction trees with
  | nil => rw [printed, rows_nil, List.map_nil, List.map_nil, hang]
  | cons t rest ih =>
    rw [List.map_cons, hang_cons, ih, List.isEmpty_map]
    simp only [printed, rows_cons, List.map_append, List.map_cons, List.map_map, Function.comp_def,
      rowText, Place.text_under, String.append_assoc]
    rfl

/-- The lines of states are the rows of their trees if this is so of what is nested in them. -/
theorem stateLines_printed {style : Style} {states : List (StateLine × List Outline)}
    (nested : ∀ e ∈ states, ∀ o ∈ e.2,
      o.lines style = (o.tree.label.text style, printed style o.tree.beneath)) :
    stateLines style (states.map fun e => (e.1, e.2.map (Outline.lines style))) =
      printed style (trees states) := by
  rw [stateLines, trees, ← hang_printed, List.map_map, List.map_map]
  refine congrArg hang (List.map_congr_left fun e entry => Prod.ext rfl ?_)
  change hang (e.2.map (Outline.lines style)) = printed style (e.2.map Outline.tree)
  rw [← hang_printed, List.map_map]
  exact congrArg hang (List.map_congr_left (nested e entry))

/-- The lines of a nested document are its caption and the rows of what hangs beneath it. -/
theorem Outline.lines_eq (style : Style) (o : Outline) :
    o.lines style = (o.tree.label.text style, printed style o.tree.beneath) := by
  induction o using Nested.induct with
  | step caption states ih =>
    rw [Outline.lines, Nested.fold_node, Outline.tree_node]
    exact Prod.ext rfl (stateLines_printed ih)

/-- The lines of a drawing are its heading, its timeout if it has one, and the rows of its trees. -/
theorem Sheet.lines_eq (style : Style) (sheet : Sheet) :
    sheet.lines style = (style.icon "🔄" ++ style.paint titleColor sheet.heading) ::
      (sheet.timeout.map fun t => style.paint descriptionColor s!"Timeout: {t}s").toList ++
      printed style (trees sheet.states) := by
  rw [Sheet.lines, stateLines_printed fun e _ o _ => Outline.lines_eq style o]

/-- The lines of a text. -/
def lines (text : String) : List String := (text.toList.splitOn '\n').map String.ofList

theorem lines_intercalate {texts : List String} (nonempty : texts ≠ [])
    (unbroken : ∀ text ∈ texts, Unbroken text) : lines ("\n".intercalate texts) = texts := by
  have apart : ∀ characters ∈ texts.map String.toList, '\n' ∉ characters := by
    simpa [Unbroken] using unbroken
  have split := List.splitOn_intercalate '\n' apart (by simpa using nonempty)
  rw [lines, String.toList_intercalate]
  change ((List.intercalate ['\n'] _).splitOn '\n').map _ = _
  rw [split, List.map_map]
  simp [Function.comp_def]

/-- The shape of what is drawn, read off the places of the lines alone. -/
def shape (lines : List String) : List (RoseTree Unit) :=
  grow (lines.filterMap fun line => (Place.read? line.toList).map Place.depth)

/-- Drawn trees have the shape that is read off the lines. -/
theorem shape_printed (style : Style) (trees : List (RoseTree Item)) :
    shape (printed style trees) = trees.map RoseTree.shape := by
  have places : (printed style trees).filterMap
      (fun line => (Place.read? line.toList).map Place.depth) = depths trees := by
    simp only [printed, rowText, List.filterMap_map, Function.comp_def, Place.read?_text,
      Option.map_some, List.filterMap_eq_map', depths]
  rw [shape, places, grow_depths]

end Drawing
end Workflow
