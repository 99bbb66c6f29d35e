import Mathlib.Algebra.Order.Field.Rat
import Mathlib.Algebra.Order.Field.Basic
import Mathlib.Tactic.Linarith
import Mathlib.Tactic.Positivity
import Workflow.Proofs.Grammar
import Workflow.Proofs.Inheritance
import Workflow.Proofs.Permissions

/-!
Rates and texts. A rate is refused when it is below one, which nothing is that is not a number:
every rate that a document shows is at least one, unless it is no number or beyond all of them.
Where all values that were given are finite, rates among them, so are those of the document, and its
text is one of the grammar.
-/

namespace Workflow

theorem Binary64.one_pos : 0 < one := by decide +kernel

namespace Number

/-- The value of a number, if it has one. -/
def value? : Number → Option ℚ
  | .int n => some n
  | .float (.finite negative rank) =>
    some ((if negative then -1 else 1) * (Binary64.units rank / Binary64.one))
  | .float _ => none

theorem isFinite_iff {n : Number} : n.isFinite = true ↔ ∃ q, n.value? = some q := by
  cases n with
  | int n => exact iff_of_true rfl ⟨_, rfl⟩
  | float x =>
    cases x with
    | finite => exact iff_of_true rfl ⟨_, rfl⟩
    | infinite | nan => simp [isFinite, value?]

theorem one_le_quotient {units parts : Nat} (positive : 0 < parts) :
    (1 : ℚ) ≤ units / parts ↔ parts ≤ units := by
  rw [one_le_div (by exact_mod_cast positive)]
  exact_mod_cast Iff.rfl

/-- What is not below one is at least one, if it has a value. -/
theorem belowOne_eq_false_iff {n : Number} : n.belowOne = false ↔
    n ≠ .float (.infinite true) ∧ ∀ q, n.value? = some q → 1 ≤ q := by
  cases n with
  | int n =>
    simp only [belowOne, value?, decide_eq_false_iff_not, not_lt, ne_eq, reduceCtorEq,
      not_false_eq_true, true_and, Option.some.injEq, forall_eq']
    exact_mod_cast Iff.rfl
  | float x =>
    cases x with
    | nan payload => simp [belowOne, Binary64.belowOne, value?]
    | infinite negative => cases negative <;> simp [belowOne, Binary64.belowOne, value?]
    | finite negative rank =>
      have below (units parts : Nat) : -1 * (units / parts : ℚ) < 1 := by
        have : (0 : ℚ) ≤ units / parts := by positivity
        linarith
      simp only [belowOne, Binary64.belowOne, value?, Option.some.injEq, forall_eq', ne_eq,
        Number.float.injEq, reduceCtorEq, not_false_eq_true, true_and]
      -- Both are left unevaluated: one is a power of two with more than three hundred digits.
      generalize Binary64.units rank = units
      have positive := Binary64.one_pos
      generalize Binary64.one = parts at positive
      cases negative
      · simp [one_le_quotient positive]
      · simpa using below units parts

end Number
namespace Json

theorem isFinite_array {items : List Json} :
    (array items).isFinite = true ↔ ∀ item ∈ items, item.isFinite = true := by
  rw [isFinite]
  induction items with
  | nil => simp [areFinite]
  | cons item items ih => simp [areFinite, ih]

theorem isFinite_object {fields : List (String × Json)} :
    (object fields).isFinite = true ↔ ∀ field ∈ fields, field.2.isFinite = true := by
  rw [isFinite]
  induction fields with
  | nil => simp [haveFinite]
  | cons field fields ih => simp [haveFinite, ih]

theorem isFinite_inherited : Inherited (·.isFinite = true) fun _ => True where
  string _ := rfl
  bool _ := rfl
  nat _ := rfl
  array := isFinite_array
  object := isFinite_object.trans (true_and _).symm.to_iff
  distinct _ := trivial
  join _ _ := trivial

/-- The rates of the retries of all entries at any depth. -/
def rates (document : Json) : List Json :=
  document.documents.flatMap fun d => d.entries.flatMap fun entry =>
    (entry.2.get "Retry").items.map (Json.get "BackoffRate")

/-- Whether all rates of a document are numbers of at least one, as far as they have a value. -/
def Rated (document : Json) : Prop :=
  ∀ rate ∈ document.rates, ∃ n, rate = .number n ∧ n ≠ .float (.infinite true) ∧
    ∀ q, n.value? = some q → 1 ≤ q

/-- Whether all rates of a document have a value, which is at least one, and its text is one of the
grammar. -/
structure Numeric (document : Json) : Prop where
  rates : ∀ rate ∈ document.rates, ∃ n q, rate = .number n ∧ n.value? = some q ∧ 1 ≤ q
  finite : document.isFinite = true
  text : Grammar.Accepts document.compact

end Json

namespace State

/-- Whether all numbers that were given for a state are finite. -/
def Finite (s : State) : Prop := ∀ value ∈ s.given, value.isFinite = true

instance (s : State) : Decidable s.Finite := inferInstanceAs (Decidable (∀ _ ∈ _, _))

end State

namespace Json

/-- The rates that the entries of a document show themselves are among those at any depth. -/
theorem mem_rates_of_entry {document : Json} {entry : String × Json} {rate : Json}
    (listed : entry ∈ document.entries)
    (shown : rate ∈ (entry.2.get "Retry").items.map (Json.get "BackoffRate")) :
    rate ∈ document.rates := by
  have inside : document ∈ document.documents := by
    rw [documents_eq]
    exact List.mem_cons_self
  exact List.mem_flatMap.mpr ⟨document, inside, List.mem_flatMap.mpr ⟨entry, listed, shown⟩⟩

end Json

namespace Entry

variable {e : Entry}

theorem mem_retries {nested : List Json} {retry : Json}
    (member : retry ∈ ((e.toJson nested).get "Retry").items) :
    ∃ r ∈ e.retries, retry = r.toJson := by
  cases found : (e.toJson nested).field? "Retry" with
  | none =>
    rw [Json.get, found] at member
    cases member
  | some value =>
    rw [Json.get, found, Option.getD_some, retries_toJson (Json.mem_of_lookup found)] at member
    obtain ⟨r, listed, rfl⟩ := List.mem_map.mp member
    exact ⟨r, listed, rfl⟩

end Entry

namespace Workspace

variable {w : Workspace}

theorem mem_rates {level : Level} {document : Document} (fits : document.Fits)
    (ok : w.document level = .ok document) {rate : Json} (shown : rate ∈ document.toJson.rates) :
    ∃ m ∈ level.preorder, ∃ r ∈ (w.state m.state).retries, rate = .number r.backoffRate := by
  obtain ⟨d, inner, shown⟩ := List.mem_flatMap.mp shown
  obtain ⟨entry, listed, shown⟩ := List.mem_flatMap.mp shown
  obtain ⟨retry, member, rfl⟩ := List.mem_map.mp shown
  rw [Document.documents_toJson fits] at inner
  obtain ⟨d, within, rfl⟩ := List.mem_map.mp inner
  rw [Document.entries_toJson] at listed
  obtain ⟨e, entry, rfl⟩ := List.mem_map.mp listed
  obtain ⟨r, kept, rfl⟩ := Entry.mem_retries member
  have inside : e.1 ∈ document.preorder :=
    (Nested.preorder_sublist_of_mem_levels within).subset
      ((Nested.entries_sublist_preorder d).subset (List.mem_map_of_mem entry))
  obtain ⟨m, there, rendered⟩ := Outcome.exists_of_forall₂_right (document_preorder ok) inside
  rw [eq_of_entry rendered] at kept
  exact ⟨m, there, r, kept, rfl⟩

/-- The document of a level is numeric if all that was given for the states at all depths is finite
and their rates are not below one. -/
theorem numeric_of_finite {level : Level} {document : Document} (fits : document.Fits)
    (least : ∀ s, ∀ r ∈ (w.state s).retries, r.backoffRate.belowOne = false)
    (finite : ∀ m ∈ level.preorder, (w.state m.state).Finite)
    (ok : w.document level = .ok document) : document.toJson.Numeric := by
  have shown : document.toJson.isFinite = true :=
    inherits_of_given Json.isFinite_inherited ok fits (fun _ _ => trivial) finite
  constructor
  case rates =>
    intro rate member
    obtain ⟨m, there, r, kept, rfl⟩ := mem_rates fits ok member
    have given : Json.number r.backoffRate ∈ (w.state m.state).given :=
      List.mem_append_left _ (List.mem_append_right _
        (List.mem_flatMap.mpr ⟨r, kept, List.mem_cons_self⟩))
    obtain ⟨q, value⟩ := Number.isFinite_iff.mp (finite m there _ given)
    obtain ⟨-, atLeast⟩ := Number.belowOne_eq_false_iff.mp (least m.state r kept)
    exact ⟨_, q, rfl, value, atLeast q value⟩
  case finite => exact shown
  case text => exact Grammar.accepts_compact shown

theorem rated_of_least {level : Level} {document : Document} (fits : document.Fits)
    (least : ∀ s, ∀ r ∈ (w.state s).retries, r.backoffRate.belowOne = false)
    (ok : w.document level = .ok document) : document.toJson.Rated := by
  intro rate member
  obtain ⟨m, -, r, kept, rfl⟩ := mem_rates fits ok member
  exact ⟨_, rfl, Number.belowOne_eq_false_iff.mp (least m.state r kept)⟩

end Workspace

/-- A machine is of a graph that is kept as it was compiled for the machine, and its definition is
the document of that graph. All its statements can be hashed. -/
theorem Build.machine_eq_ok {w w' : Workspace} {definition : Option StateId} {role timeout : Json}
    {name : Option String} {m : Machine} (ok : machine definition role name timeout w = .ok m w') :
    ∃ (graph : Graph) (c : Compiled), w.compile graph.label graph.start = .ok c ∧
      w.document (graph.level c) = .ok m.definition ∧
      w' = { w with graphs := w.graphs.push { graph with compiled := some c } } ∧
      m.graph = ⟨w.graphs.size⟩ ∧ ∀ t ∈ m.statements, t.checkHashable = .ok () := by
  unfold machine at ok
  split at ok
  · cases ok
  · simp only [bind_eq_ok, get_eq_ok, lift_eq_ok, pure_eq_ok, addGraph, set_eq_ok] at ok
    obtain ⟨_, _, ⟨rfl, rfl⟩, graph, _, ⟨-, rfl⟩, c, _, ⟨compiled, rfl⟩, document, _,
      ⟨rendered, rfl⟩, _, _, ⟨hashable, rfl⟩, id, _, added, rfl, rfl⟩ := ok
    obtain ⟨_, _, ⟨rfl, rfl⟩, ⟨⟩, _, rfl, rfl, rfl⟩ := added
    rw [Machine.foldl_permit]
    refine ⟨graph, c, compiled, rendered, rfl, rfl, fun t member => ?_⟩
    have needed := mem_of_mem_foldl_keep (mem_of_mem_foldl_keep member)
    exact Outcome.forM_eq_ok.mp hashable t needed

namespace Runs

variable {w w' : Workspace} {ops : List Operation}

/-- No rate of a retry is below one, at any time of a history. -/
theorem rates_least (runs : Runs {} ops w) (s : StateId) :
    ∀ r ∈ (w.state s).retries, r.backoffRate.belowOne = false := by
  refine runs.keeps_state (P := fun s => ∀ r ∈ s.retries, r.backoffRate.belowOne = false)
    ?_ ?_ (fun _ held => held) s
  · intro s c new
    rw [new.retries]
    simp
  · intro known s new change held
    cases change with
    | retry retry able least =>
      refine List.forall_mem_append.mpr ⟨held, ?_⟩
      simpa using least
    | wire | stop | handle | rule | tails | branches | iterator => exact held

/-- Every rate that a document or the definition of a machine shows is at least one, or is no finite
number. Where all that was given for the states of a graph is finite, its document shows nothing
else and has a text of the grammar. -/
theorem rates_at_least_one (runs : Runs {} ops w) :
    (∀ {ref level document w'}, w.HasGraph ref.root → Build.level ref w = .ok level w' →
      Build.document ref w = .ok document w' → document.toJson.Rated ∧
        ((∀ m ∈ level.preorder, (w.state m.state).Finite) → document.toJson.Numeric)) ∧
    ∀ {definition role name timeout machine w'},
      Build.machine definition role name timeout w = .ok machine w' →
      ∃ level v, Build.level ⟨machine.graph, []⟩ w' = .ok level v ∧
        machine.definition.toJson.Rated ∧
        ((∀ m ∈ level.preorder, (w.state m.state).Finite) →
          machine.definition.toJson.Numeric ∧ Grammar.Accepts machine.definitionText) := by
  have least := runs.rates_least
  constructor
  · intro ref level document w' known found handed
    obtain ⟨level', found', rendered⟩ := Build.level_of_document handed
    obtain ⟨rfl, -⟩ := EStateM.Result.ok.inj (found.symm.trans found')
    have fits := runs.document_fits known handed
    exact ⟨Workspace.rated_of_least fits least rendered,
      fun finite => Workspace.numeric_of_finite fits least finite rendered⟩
  · intro definition role name timeout machine w' made
    obtain ⟨graph, c, compiled, rendered, rfl, there, -⟩ := Build.machine_eq_ok made
    obtain ⟨-, -, sound⟩ := Workspace.compile_ok compiled graph.timeout
    have fits := Workspace.fits_of_sound rendered sound
    have kept : Workspace.graph
        { w with graphs := w.graphs.push { graph with compiled := some c } } machine.graph =
          { graph with compiled := some c } := by
      rw [Workspace.graph_push, if_pos there]
    have found := Build.level_eq_ok.mpr ⟨c, by rw [kept]; rfl, rfl, rfl⟩
    refine ⟨_, _, found, Workspace.rated_of_least fits least rendered, fun finite => ?_⟩
    rw [kept] at finite
    have numeric := Workspace.numeric_of_finite fits least finite rendered
    exact ⟨numeric, numeric.text⟩

/-- A parallel state and the task in its branch try again, each at a rate of its own. A rate of zero
is refused. -/
def insistent : List Operation :=
  [.edit (.scope "T" none), .edit (.state ⟨0⟩ "Both" none {} (.parallel {})),
    .edit (.state ⟨0⟩ "Call" none {} (.task (.ok ⟨.string "arn:call", []⟩)
      { parameters := .object [("n", .nat 3)] })),
    .edit (.branches ⟨0⟩ [⟨1⟩]), .edit (.stop ⟨0⟩), .edit (.stop ⟨1⟩),
    .edit (.retry ⟨0⟩ { backoffRate := .nat 1 }), .edit (.retry ⟨1⟩ { backoffRate := .nat 0 }),
    .edit (.retry ⟨1⟩ { backoffRate := .nat 2 }), .inquiry (.graph (some ⟨0⟩) "" .null)]

theorem insistent_rates :
    ∃ w level document w' machine w'', Runs {} insistent w ∧ w.HasGraph ⟨0⟩ ∧
      Build.level ⟨⟨0⟩, []⟩ w = .ok level w' ∧ Build.document ⟨⟨0⟩, []⟩ w = .ok document w' ∧
      level.preorder.map (·.state) = [⟨0⟩, ⟨1⟩] ∧
      Build.machine (some ⟨0⟩) (.string "arn:role") none .null w = .ok machine w'' ∧
      document.toJson.Rated ∧ document.toJson.Numeric ∧ machine.definition.toJson.Rated ∧
      machine.definition.toJson.Numeric ∧ Grammar.Accepts machine.definitionText := by
  have runs : Runs {} insistent _ := .of_allows (by decide)
  obtain ⟨documents, machines⟩ := rates_at_least_one runs
  obtain ⟨level, document, w', found, handed, listed⟩ : ∃ level document w',
      Build.level ⟨⟨0⟩, []⟩ (Workspace.run {} insistent) = .ok level w' ∧
        Build.document ⟨⟨0⟩, []⟩ (Workspace.run {} insistent) = .ok document w' ∧
        level.preorder.map (·.state) = [⟨0⟩, ⟨1⟩] := ⟨_, _, _, rfl, rfl, rfl⟩
  obtain ⟨machine, w'', level', v, made, found', listed'⟩ : ∃ machine w'' level' v,
      Build.machine (some ⟨0⟩) (.string "arn:role") none .null (Workspace.run {} insistent) =
          .ok machine w'' ∧
        Build.level ⟨machine.graph, []⟩ w'' = .ok level' v ∧
        level'.preorder.map (·.state) = [⟨0⟩, ⟨1⟩] := ⟨_, _, _, _, rfl, rfl, rfl⟩
  have finite : ∀ s ∈ [⟨0⟩, ⟨1⟩], ((Workspace.run {} insistent).state s).Finite := by decide
  have all {level : Level} (listed : level.preorder.map (·.state) = [⟨0⟩, ⟨1⟩]) :
      ∀ m ∈ level.preorder, ((Workspace.run {} insistent).state m.state).Finite :=
    fun m member => finite m.state (listed ▸ List.mem_map_of_mem member)
  obtain ⟨rated, numeric⟩ := documents (by decide) found handed
  obtain ⟨_, _, same, rated', numeric'⟩ := machines made
  obtain ⟨rfl, rfl⟩ := EStateM.Result.ok.inj (found'.symm.trans same)
  obtain ⟨numbers, text⟩ := numeric' (all listed')
  exact ⟨_, level, document, w', machine, w'', runs, by decide, found, handed, listed, made, rated,
    numeric (all listed), rated', numbers, text⟩

/-- Two rates that are no finite numbers are given for the retries of a task. -/
def unbounded : List Operation :=
  [.edit (.scope "T" none),
    .edit (.state ⟨0⟩ "Call" none {} (.task (.ok ⟨.string "arn:call", []⟩) {})),
    .edit (.retry ⟨0⟩ { backoffRate := .number (.float (.nan 0)) }),
    .edit (.retry ⟨0⟩ { backoffRate := .number (.float (.infinite false)) }), .edit (.stop ⟨0⟩),
    .inquiry (.graph (some ⟨0⟩) "" .null)]

/-- What is not a number is not below one, and so it is accepted for a rate, shown and written out
as a word, which is no value of the grammar. -/
theorem unbounded_rates_shown :
    ∃ w document w', Runs {} unbounded w ∧ w.HasGraph ⟨0⟩ ∧
      Build.document ⟨⟨0⟩, []⟩ w = .ok document w' ∧
      (∃ entry ∈ document.toJson.entries, (entry.2.get "Retry").items.map (Json.get "BackoffRate") =
        [.number (.float (.nan 0)), .number (.float (.infinite false))]) ∧
      (Number.float (.nan 0)).text Json.numberWords = "NaN".toList ∧
      ¬ Grammar.Value "NaN".toList ∧
      ¬ ∀ rate ∈ document.toJson.rates, ∃ n q, rate = .number n ∧ n.value? = some q ∧ 1 ≤ q := by
  have runs : Runs {} unbounded _ := .of_allows (by decide)
  obtain ⟨document, w', entry, ok, listed, rates⟩ : ∃ document w', ∃ entry,
      Build.document ⟨⟨0⟩, []⟩ (Workspace.run {} unbounded) = .ok document w' ∧
        document.toJson.entries.head? = some entry ∧
        (entry.2.get "Retry").items.map (Json.get "BackoffRate") =
          [.number (.float (.nan 0)), .number (.float (.infinite false))] :=
    ⟨_, _, _, rfl, rfl, rfl⟩
  have listed := List.mem_of_mem_head? listed
  refine ⟨_, document, w', runs, by decide, ok, ⟨entry, listed, rates⟩, rfl,
    Grammar.not_value_of_word (by decide), ?_⟩
  intro numeric
  have shown : .number (.float (.nan 0)) ∈ document.toJson.rates :=
    Json.mem_rates_of_entry listed (rates ▸ List.mem_cons_self)
  obtain ⟨n, q, same, value, -⟩ := numeric _ shown
  cases same
  cases value

end Runs
end Workflow
