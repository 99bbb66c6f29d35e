import Workflow.Proofs.Drawings
import Workflow.Proofs.Keeping

/-!
Legibility of drawings. A document that is handed out can be drawn in any style and under any title.
If its names have no line breaks, every row of the drawing stands on one line, so the lines are the
rows, and the tree of states and nested documents is read back from where the lines hang.
-/

namespace Workflow

open Drawing

section Texts

variable {a b : String}

theorem Unbroken.append (first : Unbroken a) (second : Unbroken b) : Unbroken (a ++ b) := by
  rw [Unbroken, String.toList_append, List.mem_append]
  exact not_or.mpr ⟨first, second⟩

theorem unbroken_natural (n : Nat) : Unbroken (toString n) := by
  intro broken
  rw [Nat.toString_eq_repr, Nat.toList_repr] at broken
  have digit := Nat.isDigit_of_mem_toDigits (by decide) (by decide) broken
  revert digit
  decide

theorem unbroken_intercalate {texts : List String} (separator : Unbroken a)
    (each : ∀ text ∈ texts, Unbroken text) : Unbroken (a.intercalate texts) := by
  induction texts with
  | nil => simp [Unbroken, String.intercalate]
  | cons text texts ih =>
    obtain ⟨first, rest⟩ := List.forall_mem_cons.mp each
    cases texts with
    | nil => simpa using first
    | cons next texts =>
      rw [String.intercalate_cons_cons]
      exact .append (.append first separator) (ih rest)

end Texts

namespace Drawing

variable {style : Style} {text : String}

theorem unbroken_icon (plain : Unbroken text) : Unbroken (style.icon text) := by
  unfold Style.icon
  split
  · exact .append plain (by decide)
  · decide

theorem unbroken_paint {code : String} (plain : Unbroken code) (unbroken : Unbroken text) :
    Unbroken (style.paint code text) := by
  unfold Style.paint
  split
  · exact .append (.append (.append (.append (by decide) plain) (by decide)) unbroken) (by decide)
  · exact unbroken

theorem unbroken_typeStyle (type : String) :
    Unbroken (typeStyle type).1 ∧ Unbroken (typeStyle type).2 := by
  unfold typeStyle
  split <;> decide

theorem unbroken_timeout (seconds : Nat) :
    Unbroken (style.paint descriptionColor s!"Timeout: {(Json.nat seconds).display}s") := by
  have written : (Json.nat seconds).display = toString seconds := by
    rw [Nat.toString_eq_ofList_toDigits]
    rfl
  rw [written]
  exact unbroken_paint (by decide)
    (.append (.append (by decide) (unbroken_natural seconds)) (by decide))

/-- Whether a remark stands on one line. -/
def Remark.Unbroken : Remark → Prop
  | leads targets => Workflow.Unbroken targets
  | default target => Workflow.Unbroken target
  | ends | retries _ => True
  | catches errors target => Workflow.Unbroken errors ∧ Workflow.Unbroken target

theorem unbroken_remark {remark : Remark} (unbroken : remark.Unbroken) :
    Unbroken (remark.text style) := by
  cases remark with
  | leads targets => exact unbroken_paint (by decide) (.append (by decide) unbroken)
  | default target =>
    exact unbroken_paint (by decide) (.append (.append (by decide) unbroken) (by decide))
  | ends =>
    change Unbroken (if style.icons then "⏹️" else "(end)")
    split <;> decide
  | catches errors target =>
    obtain ⟨errors, target⟩ := unbroken
    exact unbroken_paint (by decide)
      (.append (unbroken_icon (by decide)) (.append (.append errors (by decide)) target))
  | retries count =>
    exact unbroken_paint (by decide)
      (.append (.append (by decide) (unbroken_natural count)) (by decide))

theorem unbroken_place (place : Place) : Unbroken place.text := by
  obtain ⟨bars, last⟩ := place
  induction bars with
  | nil => cases last <;> decide
  | cons on bars ih =>
    have bar : Unbroken (Place.bar on) := by cases on <;> decide
    exact .append bar ih

theorem unbroken_stateLine {line : StateLine} (name : Unbroken line.name)
    (type : Unbroken line.type) (remarks : ∀ remark ∈ line.remarks, remark.Unbroken) :
    Unbroken (line.text style) := by
  obtain ⟨code, icon⟩ := unbroken_typeStyle line.type
  refine unbroken_intercalate (by decide) (List.forall_mem_cons.mpr ⟨?_, ?_⟩)
  · have head : Unbroken (style.icon _ ++ style.paint _ line.name) :=
      .append (unbroken_icon icon) (unbroken_paint code name)
    exact .append (.append (.append head (by decide)) type) (by decide)
  · exact List.forall_mem_map.mpr fun remark member => unbroken_remark (remarks remark member)

theorem unbroken_caption {c : Caption} (label : Unbroken c.label) (start : Unbroken c.start) :
    Unbroken (c.text style) :=
  .append (.append (unbroken_icon (by decide)) (unbroken_paint (by decide) label))
    (.append (.append (by decide) start) (by decide))

end Drawing

theorem StateType.name_unbroken (type : StateType) : Unbroken type.name := by
  cases type <;> decide

namespace Entry

theorem label_unbroken (e : Entry) (before : Nat) : Unbroken (e.label before) := by
  unfold label
  split
  · exact .append (by decide) (unbroken_natural _)
  · decide

/-- Whether the name of an entry and those of the errors that its handlers are for are names without
line breaks. -/
structure NamesUnbroken (e : Entry) : Prop where
  name : Unbroken e.name
  errors : ∀ handler ∈ e.catches, ∀ error ∈ handler.errors, ∃ name ∈ error.string?, Unbroken name

instance (e : Entry) : Decidable e.NamesUnbroken :=
  decidable_of_iff (Unbroken e.name ∧ ∀ handler ∈ e.catches, ∀ error ∈ handler.errors,
      ∃ name ∈ error.string?, Unbroken name)
    ⟨fun ⟨name, errors⟩ => ⟨name, errors⟩, fun ⟨name, errors⟩ => ⟨name, errors⟩⟩

variable {e : Entry}

theorem named_of_unbroken (unbroken : e.NamesUnbroken) : e.Named := by
  intro handler member
  have each : ∀ error ∈ handler.errors, ∃ name, error = .string name := by
    intro error among
    obtain ⟨name, is, -⟩ := unbroken.errors handler member error among
    cases error <;> cases is
    exact ⟨name, rfl⟩
  rw [Catch.names]
  generalize handler.errors = errors at each
  induction errors with
  | nil => rfl
  | cons error errors ih =>
    obtain ⟨⟨name, rfl⟩, rest⟩ := List.forall_mem_cons.mp each
    exact congrArg (Json.string name :: ·) (ih rest)

theorem errors_unbroken (unbroken : e.NamesUnbroken) {handler : Catch String}
    (member : handler ∈ e.catches) : Unbroken (", ".intercalate handler.names) := by
  refine unbroken_intercalate (by decide) fun name named => ?_
  obtain ⟨error, among, is⟩ := List.mem_filterMap.mp named
  obtain ⟨other, is', unbroken⟩ := unbroken.errors handler member error among
  exact Option.some.inj (is'.symm.trans is) ▸ unbroken

theorem onwardRemarks_unbroken (names : e.NamesUnbroken)
    (targets : ∀ link ∈ e.onwardLinks, Unbroken link.2) :
    ∀ remark ∈ e.onwardRemarks, remark.Unbroken := by
  obtain ⟨way, handlers⟩ := List.forall_mem_append.mp targets
  refine List.forall_mem_append.mpr ⟨List.forall_mem_cons.mpr ⟨?_, ?_⟩, ?_⟩
  · cases next : e.next with
    | none => trivial
    | some name => exact way (.next, name) (by simp [next])
  · refine List.forall_mem_map.mpr fun handler member => ?_
    exact ⟨errors_unbroken names member, List.forall_mem_map.mp handlers handler member⟩
  · split <;> simp [Remark.Unbroken]

theorem remarks_unbroken (names : e.NamesUnbroken) (targets : ∀ link ∈ e.links, Unbroken link.2) :
    ∀ remark ∈ e.remarks, remark.Unbroken := by
  unfold remarks
  unfold links at targets
  cases content : e.content <;> simp only [content] at targets ⊢
  case choice rules =>
    obtain ⟨rules, default⟩ := List.forall_mem_append.mp targets
    refine List.forall_mem_cons.mpr ⟨?_, ?_⟩
    · exact unbroken_intercalate (by decide)
        (List.forall_mem_map.mpr fun rule member => List.forall_mem_map.mp rules rule member)
    · cases next : e.next with
      | none => simp
      | some name => simpa [next, Remark.Unbroken] using default
  case succeed | fail => simp
  all_goals exact onwardRemarks_unbroken names targets

end Entry

namespace Document

variable {d : Document}

/-- Whether the names that a document lists its states under, and those of the errors in it, are
names without line breaks. -/
def NamesUnbroken (d : Document) : Prop := ∀ l ∈ d.levels, ∀ e ∈ l.entries, e.1.NamesUnbroken

instance (d : Document) : Decidable d.NamesUnbroken :=
  inferInstanceAs (Decidable (∀ l ∈ d.levels, _))

/-- Whether the names that a document starts with and leads to have no line breaks. -/
def TargetsUnbroken (d : Document) : Prop :=
  ∀ l ∈ d.levels, Unbroken l.info.startAt ∧ ∀ e ∈ l.entries, ∀ link ∈ e.1.links, Unbroken link.2

/-- The trees that a drawing of a document shows, one for each of its states. -/
def trees (d : Document) : List (RoseTree Item) := Drawing.trees d.outlines

/-- What a drawing of a document shows, row by row: each state in order, followed by each document
nested in it with what a drawing shows of that document. -/
def items (d : Document) : List Item := Drawing.items d.outlines

/-- The ordered tree of the states of a document and the documents nested in them, whatever they
are. -/
def shape : Document → List (RoseTree Unit) :=
  Nested.fold fun _ es => es.map fun e => .node () (e.2.map (RoseTree.node ()))

theorem rows_items (d : Document) : (rows d.trees).map Prod.snd = d.items :=
  map_snd_trees fun _ _ o _ => o.items_eq

theorem items_eq (d : Document) : d.items = d.entries.flatMap fun e =>
    .state e.1.line :: e.2.zipIdx.flatMap fun (inner, i) =>
      .document ⟨e.1.label i, inner.info.startAt⟩ :: items inner := by
  have nested (inner : Document) (label : String) : (inner.outline label).items =
      .document ⟨label, inner.info.startAt⟩ :: inner.items := by
    obtain ⟨heading, es⟩ := inner
    rw [outline_node, Outline.items_node]
    rfl
  rw [items, Drawing.items, outlines, List.flatMap_map]
  simp only [List.flatMap_map, nested]

theorem tree_outline (d : Document) (label : String) :
    (d.outline label).tree = .node (.document ⟨label, d.info.startAt⟩) d.trees := by
  obtain ⟨heading, es⟩ := d
  rw [outline_node, Outline.tree_node]
  rfl

/-- A drawing has the shape of the document. -/
theorem shape_trees (d : Document) : d.trees.map RoseTree.shape = d.shape := by
  induction d using Nested.induct with
  | step heading es ih =>
    rw [trees, Drawing.trees, outlines, shape, Nested.fold_node, List.map_map, List.map_map,
      List.map_map]
    refine List.map_congr_left fun e entry => ?_
    have nested : ∀ inner ∈ e.2.zipIdx,
        (outline inner.1 (e.1.label inner.2)).tree.shape = .node () (shape inner.1) := by
      intro inner member
      rw [tree_outline, RoseTree.shape_node, ih e entry inner.1 (List.fst_mem_of_mem_zipIdx member)]
    -- The labels of nested documents count them, which the shape does not show.
    have uncounted : e.2.zipIdx.map (fun inner => RoseTree.node () (shape inner.1)) =
        e.2.map fun d => RoseTree.node () (shape d) := by
      calc
        _ = (e.2.zipIdx.map Prod.fst).map fun d => RoseTree.node () (shape d) := List.map_map.symm
        _ = _ := by rw [List.zipIdx_map_fst]
    simp only [Function.comp_apply, RoseTree.shape_node, List.map_map]
    exact congrArg (RoseTree.node ()) ((List.map_congr_left nested).trans uncounted)

theorem items_unbroken {style : Style} (names : d.NamesUnbroken) (targets : d.TargetsUnbroken) :
    ∀ item ∈ d.items, Unbroken (item.text style) := by
  induction d using Nested.induct with
  | step heading es ih =>
    have top := Nested.mem_levels_self (.node heading es)
    rw [items_eq]
    refine List.forall_mem_flatMap.mpr fun e entry => List.forall_mem_cons.mpr ⟨?_, ?_⟩
    · exact unbroken_stateLine (names _ top e entry).name (StateType.name_unbroken _)
        (Entry.remarks_unbroken (names _ top e entry) ((targets _ top).2 e entry))
    · refine List.forall_mem_flatMap.mpr fun (inner, i) member => List.forall_mem_cons.mpr ⟨?_, ?_⟩
      all_goals
        have nested := List.fst_mem_of_mem_zipIdx member
        have within {l : Document} (inside : l ∈ inner.levels) :
            l ∈ Nested.levels (.node heading es) :=
          Nested.mem_levels_of_nested entry nested inside
      · have start := (targets inner (within (Nested.mem_levels_self inner))).1
        exact unbroken_caption (Entry.label_unbroken _ _) start
      · exact ih e entry inner nested (fun l inside => names l (within inside))
          fun l inside => targets l (within inside)

theorem lines_sheet (style : Style) (d : Document) (title : Option String) :
    (d.sheet title).lines style =
      (style.icon "🔄" ++ style.paint titleColor (d.sheet title).heading) ::
        (d.info.timeout.map fun seconds =>
          style.paint descriptionColor s!"Timeout: {(Json.nat seconds).display}s").toList ++
        printed style d.trees := by
  rw [Sheet.lines_eq, sheet, Option.map_map]
  rfl

/-- Every line of a drawing stands on one line. -/
theorem lines_unbroken {style : Style} {title : Option String} (names : d.NamesUnbroken)
    (targets : d.TargetsUnbroken) (titled : ∀ given ∈ title, Unbroken given) :
    ∀ line ∈ (d.sheet title).lines style, Unbroken line := by
  have heading : Unbroken (d.sheet title).heading := by
    rw [sheet]
    cases given : title.filter fun given => !given.isEmpty with
    | none =>
      exact .append (by decide) (targets d (Nested.mem_levels_self d)).1
    | some name => exact titled name (Option.filter_eq_some_iff.mp given).1
  rw [lines_sheet]
  refine List.forall_mem_append.mpr ⟨List.forall_mem_cons.mpr ⟨?_, ?_⟩, ?_⟩
  · exact .append (unbroken_icon (by decide)) (unbroken_paint (by decide) heading)
  · cases d.info.timeout with
    | none => simp
    | some seconds => simpa using unbroken_timeout seconds
  · refine List.forall_mem_map.mpr fun row member => ?_
    have shown : row.2 ∈ d.items := d.rows_items ▸ List.mem_map_of_mem member
    exact .append (unbroken_place row.1) (items_unbroken names targets row.2 shown)

end Document

namespace Drawing

/-- A timeout is not taken for a row. -/
theorem read?_timeout (style : Style) (text : String) :
    Place.read? (style.paint descriptionColor s!"Timeout: {text}s").toList = none := by
  change Place.read? (style.paint descriptionColor ("Timeout: " ++ text ++ "s")).toList = none
  unfold Style.paint
  split <;> simp [Terminal.inColor, Terminal.sequence, Place.read?]

/-- The shape of a document is read off a drawing of it below the heading. -/
theorem shape_tail (style : Style) (d : Document) (title : Option String) :
    shape ((d.sheet title).lines style).tail = d.shape := by
  have printed := (shape_printed style d.trees).trans d.shape_trees
  rw [Document.lines_sheet, List.cons_append, List.tail_cons]
  cases d.info.timeout with
  | none => exact printed
  | some seconds =>
    rw [Option.map_some, Option.toList_some, List.singleton_append, shape, List.filterMap_cons,
      read?_timeout]
    exact printed

theorem draw_toJson (style : Style) (title : Option String) {d : Document} (fits : d.Fits)
    (named : d.Named) :
    draw style d.toJson title = .ok ("\n".intercalate ((d.sheet title).lines style)) := by
  rw [draw, Document.sheet_toJson fits named title]
  rfl

end Drawing

namespace Build

variable {w w' : Workspace} {ref : GraphRef} {d : Document}

/-- The document of a graph that was not compiled before starts with a name that it lists, and leads
to such names alone. -/
theorem targetsUnbroken_of_fresh (fresh : (w.graph ref.root).compiled = none)
    (ok : Build.document ref w = .ok d w') (names : d.NamesUnbroken) : d.TargetsUnbroken := by
  obtain ⟨c, level, compiled, inside, rendered⟩ := document_ok ok
  rw [Workspace.compiled_of_fresh fresh] at compiled
  obtain ⟨sound, -, -⟩ := Workspace.level_of_compile compiled
  intro inner within
  obtain ⟨l, member, rendered⟩ :=
    Outcome.exists_of_forall₂_right (Workspace.document_levels rendered) within
  have sound := sound l (Nested.mem_levels_trans member inside)
  have resolves := Workspace.resolves_of_steady sound rfl (fun s _ => .of_states rfl s) rendered
  have listed {name : String} (key : name ∈ Json.keys (Document.toJson inner)) : Unbroken name := by
    rw [Document.keys_toJson] at key
    obtain ⟨e, entry, rfl⟩ := List.mem_map.mp key
    exact (names inner within e entry).name
  constructor
  · obtain ⟨name, key, start⟩ := resolves.start
    rw [Document.startAt_toJson] at start
    cases start
    exact listed key
  · intro e entry link leads
    have shown : (link.1, Json.string link.2) ∈
        (e.1.toJson (e.2.map Document.toJson)).links := by
      rw [Entry.links_toJson]
      exact List.mem_map_of_mem leads
    have member : (e.1.name, e.1.toJson (e.2.map Document.toJson)) ∈
        Json.entries (Document.toJson inner) := by
      rw [Document.entries_toJson]
      exact List.mem_map_of_mem entry
    obtain ⟨name, key, same⟩ := resolves.links _ member _ shown
    cases same
    exact listed key

end Build

/-- Whether a document is handed out at some moment of a history and none of its names has a line
break. States may have got other names since a graph was compiled, so that its documents lead to
names that they do not list; these have no line breaks then either. -/
inductive Document.Plain : Document → Prop
  | handed {ops : List Operation} {w w' : Workspace} {ref : GraphRef} {d : Document}
      (runs : Runs {} ops w) (known : w.HasGraph ref.root)
      (ok : Build.document ref w = .ok d w') (names : d.NamesUnbroken)
      (targets : (w.graph ref.root).compiled ≠ none → d.TargetsUnbroken) : Plain d

namespace Document

variable {d : Document}

theorem Plain.fits (plain : d.Plain) : d.Fits := by
  obtain ⟨runs, known, ok, -, -⟩ := plain
  exact runs.document_fits known ok

theorem Plain.unbroken (plain : d.Plain) : d.NamesUnbroken ∧ d.TargetsUnbroken := by
  cases plain with
  | @handed _ w _ ref _ _ _ ok names targets =>
    refine ⟨names, ?_⟩
    by_cases fresh : (w.graph ref.root).compiled = none
    · exact Build.targetsUnbroken_of_fresh fresh ok names
    · exact targets fresh

theorem Plain.draw_eq (plain : d.Plain) (style : Style) (title : Option String) :
    draw style d.toJson title = .ok ("\n".intercalate ((d.sheet title).lines style)) :=
  draw_toJson style title plain.fits fun l within e entry =>
    Entry.named_of_unbroken (plain.unbroken.1 l within e entry)

theorem Plain.lines_eq (plain : d.Plain) (style : Style) {title : Option String}
    (titled : ∀ given ∈ title, Unbroken given) :
    lines ("\n".intercalate ((d.sheet title).lines style)) = (d.sheet title).lines style := by
  obtain ⟨names, targets⟩ := plain.unbroken
  exact lines_intercalate (by rw [lines_sheet]; simp) (lines_unbroken names targets titled)

/-- Whatever a document without line breaks in its names is called and in whatever style, it is
drawn. The lines of the drawing are its heading, its timeout if it has one, and a line for each
state, followed by a line for each document nested in the state with the lines of that document.
From the groups of characters that the lines below the heading start with, the tree of states and
nested documents is read back, so documents of another shape are not drawn alike. -/
theorem drawing_read_back (plain : d.Plain) {title : Option String}
    (titled : ∀ given ∈ title, Unbroken given) (style : Style) :
    ∃ text, draw style d.toJson title = .ok text ∧
      lines text = (style.icon "🔄" ++ style.paint titleColor (d.sheet title).heading) ::
        (d.toJson.field? "TimeoutSeconds").toList.map
          (fun seconds => style.paint descriptionColor s!"Timeout: {seconds.display}s") ++
        (rows d.trees).map (rowText style) ∧
      (rows d.trees).map Prod.snd = d.items ∧
      Drawing.shape (lines text).tail = d.shape ∧
      ∀ {d' : Document} {title' : Option String} {style' : Style} {text' : String}, d'.Plain →
        (∀ given ∈ title', Unbroken given) → draw style' d'.toJson title' = .ok text' →
        (lines text').tail = (lines text).tail → d'.shape = d.shape := by
  have shaped := shape_tail style d title
  refine ⟨_, plain.draw_eq style title, ?_, d.rows_items, ?_, ?_⟩
  · rw [plain.lines_eq style titled, lines_sheet, timeout_toJson]
    cases d.info.timeout <;> rfl
  · rw [plain.lines_eq style titled, shaped]
  · intro d' title' style' text' plain' titled' drawn same
    rw [plain'.draw_eq style' title'] at drawn
    cases drawn
    rw [plain'.lines_eq style' titled', plain.lines_eq style titled] at same
    rw [← shape_tail style' d' title', same, shaped]

/-- A graph with two branches and a timeout. One of the branches starts at a state whose name looks
like the start of a row. -/
def framed : List Operation :=
  [.edit (.scope "T" none), .edit (.state ⟨0⟩ "Fan" none {} (.parallel {})),
    .edit (.state ⟨0⟩ "├── Left" none {} (.pass {})), .edit (.state ⟨0⟩ "Right" none {} .succeed),
    .edit (.branches ⟨0⟩ [⟨1⟩, ⟨2⟩]), .edit (.stop ⟨0⟩), .edit (.stop ⟨1⟩),
    .inquiry (.graph (some ⟨0⟩) "" (.nat 60))]

/-- Neither such a name nor such a title is taken for a place. -/
theorem framed_drawing_read_back :
    ∃ d text, Plain d ∧ (∀ given ∈ some "├── Frame", Unbroken given) ∧
      draw ⟨false, false⟩ d.toJson (some "├── Frame") = .ok text ∧
      lines text = ["├── Frame", "Timeout: 60s", "└── Fan [Parallel] (end)",
        "    ├── Branch 1 (start at ├── Left)", "    │   └── ├── Left [Pass] (end)",
        "    └── Branch 2 (start at Right)", "        └── Right [Succeed]"] ∧
      Drawing.shape (lines text).tail =
        [.node () [.node () [.node () []], .node () [.node () []]]] := by
  have runs : Runs {} framed _ := .of_allows (by decide)
  have ok : Build.document ⟨⟨0⟩, []⟩ (Workspace.run {} framed) = .ok _ _ := rfl
  have plain : Plain _ := .handed runs (by decide) ok (by decide) fun late => absurd rfl late
  have titled : ∀ given ∈ some "├── Frame", Unbroken given := by decide
  obtain ⟨text, drawn, shown, -, shaped, -⟩ := drawing_read_back plain titled ⟨false, false⟩
  exact ⟨_, text, plain, titled, drawn, shown.trans (by decide), shaped⟩

end Document
end Workflow
