import Mathlib.Tactic.IntervalCases
import Workflow.Machine.Basic
import Workflow.Proofs.Contents
import Workflow.Proofs.Inquiries

/-!
Permissions of machines. The statements that the states of a definition need are collected in the
order in which the document shows the states, and further ones are added behind them. Statements of
texts are the same exactly if they are equal, so that each is kept once, where it comes up first.
-/

namespace Workflow

section Firsts

variable {α : Type} [DecidableEq α]

theorem nodup_eraseDups : (items : List α) → items.eraseDups.Nodup
  | [] => List.nodup_nil
  | a :: items => by
    rw [List.eraseDups_cons]
    refine List.nodup_cons.mpr ⟨?_, nodup_eraseDups _⟩
    intro later
    simpa using List.mem_eraseDups.mp later
termination_by items => items.length
decreasing_by exact Nat.lt_succ_of_le (List.length_filter_le _ _)

theorem eraseDups_of_nodup {items : List α} (distinct : items.Nodup) : items.eraseDups = items := by
  induction items with
  | nil => rfl
  | cons a items ih =>
    obtain ⟨new, distinct⟩ := List.nodup_cons.mp distinct
    have others : items.filter (fun b => !b == a) = items := by
      apply List.filter_eq_self.mpr
      intro b member
      simpa using ne_of_mem_of_not_mem member new
    rw [List.eraseDups_cons, others, ih distinct]

theorem eraseDups_append_singleton (items : List α) (a : α) :
    (items ++ [a]).eraseDups =
      if a ∈ items then items.eraseDups else items.eraseDups ++ [a] := by
  rw [List.eraseDups_append]
  by_cases member : a ∈ items <;> simp [List.removeAll, member, List.eraseDups_cons]

/-- Keeping what is not the same as anything kept yet keeps first occurrences, if only what is equal
is the same. -/
theorem foldl_keep {same : α → α → Bool} {kept items : List α} (distinct : kept.Nodup)
    (exact : ∀ a ∈ items, ∀ b, same a b = true ↔ a = b) :
    items.foldl (fun kept a => if kept.any (same a) then kept else kept ++ [a]) kept =
      (kept ++ items).eraseDups := by
  induction items using List.reverseRecOn with
  | nil => rw [List.append_nil, eraseDups_of_nodup distinct, List.foldl_nil]
  | append_singleton items a ih =>
    have here : ∀ b, same a b = true ↔ a = b := exact a (by simp)
    have before := ih fun b member => exact b (List.mem_append_left _ member)
    have known : ((kept ++ items).eraseDups.any (same a) = true) ↔ a ∈ kept ++ items := by
      rw [List.any_eq_true, ← List.mem_eraseDups]
      simp only [here, exists_eq_right']
    rw [List.foldl_append, before, ← List.append_assoc, eraseDups_append_singleton]
    simp only [List.foldl_cons, List.foldl_nil, known]

/-- Nothing is kept that was not there. -/
theorem mem_of_mem_foldl_keep {α : Type} {same : α → α → Bool} {items : List α} {a : α}
    (member : a ∈ items.foldl (fun kept a => if kept.any (same a) then kept else kept ++ [a]) []) :
    a ∈ items := by
  induction items using List.reverseRecOn with
  | nil => exact member
  | append_singleton items b ih =>
    rw [List.foldl_append, List.foldl_cons, List.foldl_nil] at member
    split at member
    · exact List.mem_append_left _ (ih member)
    · exact List.mem_append.mpr ((List.mem_append.mp member).imp_left ih)

end Firsts

namespace Json

theorem same_string {text : String} {value : Json} :
    same (.string text) value = true ↔ .string text = value := by
  cases value <;> simp [same, asNumber?]

theorem sameItems_iff {items others : List Json} (texts : ∀ v ∈ items, v.string?.isSome = true) :
    sameItems items others = true ↔ items = others := by
  induction items generalizing others with
  | nil => cases others <;> simp [sameItems]
  | cons v items ih =>
    obtain ⟨text, later⟩ := List.forall_mem_cons.mp texts
    obtain ⟨text, rfl⟩ : ∃ text, v = .string text := by
      cases v <;> simp [string?] at text ⊢
    cases others with
    | nil => simp [sameItems]
    | cons other others => simp [sameItems, same_string, ih later]

end Json

namespace Statement

/-- A statement whose actions and resources are texts. -/
def Textual (t : Statement) : Prop := ∀ v ∈ t.actions ++ t.resources, v.string?.isSome = true

instance (t : Statement) : Decidable t.Textual := inferInstanceAs (Decidable (∀ _ ∈ _, _))

theorem Textual.same_iff {s t : Statement} (textual : s.Textual) : s.same t = true ↔ s = t := by
  have actions : Json.sameItems s.actions t.actions = true ↔ s.actions = t.actions :=
    Json.sameItems_iff fun v member => textual v (List.mem_append_left _ member)
  have resources : Json.sameItems s.resources t.resources = true ↔ s.resources = t.resources :=
    Json.sameItems_iff fun v member => textual v (List.mem_append_right _ member)
  obtain ⟨effect, _, _⟩ := s
  obtain ⟨effect', _, _⟩ := t
  simp [same, actions, resources, and_assoc]

theorem Textual.checkHashable {t : Statement} (textual : t.Textual) :
    t.checkHashable = .ok () := by
  apply Outcome.forM_eq_ok.mpr
  intro v member
  have text := textual v member
  cases v <;> first | rfl | cases text

open scoped Classical in
theorem distinct_eq {statements : List Statement} (textual : ∀ t ∈ statements, t.Textual) :
    distinct statements = statements.eraseDups :=
  foldl_keep List.nodup_nil fun _ member _ => (textual _ member).same_iff

/-- Whether a statement is written out as an item of a policy. -/
structure Written (t : Statement) (item : Json) : Prop where
  effect : item.field? "Effect" = some (.string t.effect.name)
  actions : item.field? "Action" = some (.array t.actions)
  resources : item.field? "Resource" = some (.array t.resources)

theorem written_toJson (t : Statement) : t.Written t.toJson := ⟨rfl, rfl, rfl⟩

end Statement

namespace Machine

/-- Permissions are added one by one to the statements of a machine and to nothing else. -/
theorem foldl_permit (m : Machine) (added : List Statement) :
    added.foldl permit m = { m with
      statements := added.foldl
        (fun kept s => if kept.any s.same then kept else kept ++ [s]) m.statements } := by
  induction added generalizing m with
  | nil => rfl
  | cons s added ih =>
    rw [List.foldl_cons, ih, List.foldl_cons, permit]
    split <;> rfl

open scoped Classical in
theorem statements_of_none {m : Machine} {added : List Statement}
    (textual : ∀ t ∈ added, t.Textual) (none : m.statements = []) :
    (added.foldl permit m).statements = added.eraseDups := by
  rw [foldl_permit, none]
  exact Statement.distinct_eq textual

open scoped Classical in
/-- A machine that has the first occurrences of some statements has those of more when more are
added. -/
theorem statements_permit {m : Machine} {asked added : List Statement}
    (textual : ∀ t ∈ asked ++ added, t.Textual) (kept : m.statements = asked.eraseDups) :
    (added.foldl permit m).statements = (asked ++ added).eraseDups := by
  have before := Statement.distinct_eq fun t member => textual t (List.mem_append_left added member)
  rw [foldl_permit, kept, ← before, ← Statement.distinct_eq textual, Statement.distinct,
    Statement.distinct, List.foldl_append]

open scoped Classical in
/-- What a machine permits if it was asked for some statements: each of them where it comes up
first, nothing else and nothing twice, written out in this order. -/
structure Grants (m : Machine) (asked : List Statement) : Prop where
  firsts : m.statements = asked.eraseDups
  once : m.statements.Nodup
  asked : ∀ t, t ∈ m.statements ↔ t ∈ asked
  written : ∃ items, m.policy.field? "Statement" = some (.array items) ∧
    List.Forall₂ Statement.Written m.statements items

open scoped Classical in
theorem Grants.of_eq {m : Machine} {asked : List Statement}
    (same : m.statements = asked.eraseDups) :
    m.Grants asked where
  firsts := same
  once := same ▸ nodup_eraseDups asked
  asked t := by rw [same, List.mem_eraseDups]
  written :=
    ⟨m.statements.map Statement.toJson, rfl, List.forall₂_map_right_iff.mpr
      (List.forall₂_same.mpr fun t _ => t.written_toJson)⟩

end Machine

/-- The statements that the states of a level and of those nested in it need, in the order of the
states. -/
def Workspace.needs (w : Workspace) (level : Level) : List Statement :=
  level.allStates.flatMap fun s => (w.state s).statements

theorem Workspace.mem_needs {w : Workspace} {level : Level} {t : Statement} :
    t ∈ w.needs level ↔ ∃ s ∈ level.allStates, t ∈ (w.state s).statements :=
  List.mem_flatMap

namespace Build

variable {w : Workspace} {definition : Option StateId} {role : Json} {name : Option String}
  {timeout : Json} {graph : Graph} {c : Compiled} {document : Document}

/-- A machine is made of every definition that compiles and whose statements are texts. -/
theorem machine_ok (chosen : role.isEmpty = false)
    (made : w.newGraph definition (Machine.label name) timeout = .ok graph)
    (compiled : w.compile graph.label graph.start = .ok c)
    (rendered : w.document (graph.level c) = .ok document)
    (textual : ∀ t ∈ w.needs (graph.level c), t.Textual) :
    ∃ id w', machine definition role name timeout w =
      .ok ((Statement.distinct (w.needs (graph.level c))).foldl Machine.permit
        { name, role, graph := id, definition := document, statements := [] }) w' := by
  have needed : c.registry.flatMap (fun r => (w.state r.state).statements) =
      w.needs (graph.level c) := by
    rw [Workspace.needs, ← Workspace.states_of_compile compiled, List.flatMap_map]
  have hashable : (w.needs (graph.level c)).forM Statement.checkHashable = .ok () :=
    Outcome.forM_eq_ok.mpr fun t member => (textual t member).checkHashable
  rw [← needed] at hashable ⊢
  rw [machine, if_neg (by simp [chosen])]
  simp only [bind_eq_ok, get_eq_ok, lift_eq_ok, pure_eq_ok, addGraph, set_eq_ok]
  exact ⟨_, _, w, w, ⟨rfl, rfl⟩, graph, w, ⟨made, rfl⟩, c, w, ⟨compiled, rfl⟩, document, w,
    ⟨rendered, rfl⟩, (), w, ⟨hashable, rfl⟩, _, _, ⟨w, w, ⟨rfl, rfl⟩, ⟨⟩, _, rfl, rfl, rfl⟩, rfl,
    rfl⟩

/-- A machine has exactly the permissions that the states shown by its document need, at any depth
and in the order in which they are shown, and those that are added to it later. -/
theorem machine_grants (chosen : role.isEmpty = false)
    (made : w.newGraph definition (Machine.label name) timeout = .ok graph)
    (compiled : w.compile graph.label graph.start = .ok c)
    (rendered : w.document (graph.level c) = .ok document)
    (textual : ∀ s, w.Occurs graph.start s → ∀ t ∈ (w.state s).statements, t.Textual) :
    let states := (graph.level c).allStates
    document.toJson.names = states.map (fun s => (w.state s).name) ∧ document.toJson.names.Nodup ∧
      (∀ s, s ∈ states ↔ w.Occurs graph.start s) ∧
      ∃ m w', machine definition role name timeout w = .ok m w' ∧ m.definition = document ∧
        ∀ added : List Statement, (∀ t ∈ added, t.Textual) → (added.foldl Machine.permit m).Grants
          (w.needs (graph.level c) ++ added) := by
  classical
  intro states
  obtain ⟨sound, registered, names⟩ := Workspace.level_of_compile compiled
  have entered : c.registry.map (·.state) = states := Workspace.states_of_compile compiled
  have occurs {s : StateId} : s ∈ states ↔ w.Occurs graph.start s :=
    Workspace.mem_allStates_iff sound
  have textual : ∀ t ∈ w.needs (graph.level c), t.Textual := by
    intro t member
    obtain ⟨s, listed, needed⟩ := Workspace.mem_needs.mp member
    exact textual s (occurs.mp listed) t needed
  obtain ⟨id, w', ok⟩ := machine_ok chosen made compiled rendered textual
  rw [Workspace.names_document sound rendered, ← names]
  refine ⟨?_, registered.distinct, fun s => occurs, _, w', ok, ?_, ?_⟩
  · rw [← entered, List.map_map]
    exact List.map_congr_left registered.named
  · rw [Machine.foldl_permit]
  · intro added more
    refine .of_eq (Machine.statements_permit ?_ ?_)
    · exact List.forall_mem_append.mpr ⟨textual, more⟩
    · rw [Statement.distinct_eq textual, Machine.statements_of_none _ rfl]
      · exact eraseDups_of_nodup (nodup_eraseDups _)
      · exact fun t member => textual t (List.mem_eraseDups.mp member)

end Build

/-- A function that is invoked by permission. -/
def Resource.invoked (arn : String) : Resource :=
  ⟨.string arn, [.allow "lambda:InvokeFunction" (.string arn)]⟩

namespace Workspace

/-- A task that invokes a function and ends its path. -/
def invoking (id arn : String) : State where
  scope := ⟨0⟩
  id := id
  path := "delivery/" ++ id
  name := id
  common := {}
  kind := .task (.invoked arn) {}
  exit := .stop

/-- A graph whose two branches invoke one function, and which invokes another one in the end. -/
def delivery : Workspace where
  scopes := #[{ id := "delivery", path := "delivery", parent := none }]
  states := #[
    { scope := ⟨0⟩, id := "Both", path := "delivery/Both", name := "Both", common := {},
      kind := .parallel {} [⟨1⟩, ⟨2⟩], exit := .next (.state ⟨3⟩) },
    invoking "Left" "arn:pack", invoking "Right" "arn:pack", invoking "Send" "arn:send"]

theorem delivery_textual (s : StateId) : ∀ t ∈ (delivery.state s).statements, t.Textual := by
  by_cases known : delivery.HasState s
  · obtain ⟨i⟩ := s
    have inside : i < 4 := known
    interval_cases i <;> decide
  · rw [state_of_not_hasState known]
    exact fun t none => absurd none List.not_mem_nil

end Workspace

namespace Build

/-- What both branches need is permitted once, before what is needed in the end; and what is added
is permitted after that. -/
theorem delivery_grants :
    ∃ m w', machine (some ⟨0⟩) (.string "arn:role") none .null .delivery = .ok m w' ∧
      m.policy = Statement.document [.allow "lambda:InvokeFunction" (.string "arn:pack"),
        .allow "lambda:InvokeFunction" (.string "arn:send")] ∧
      m.definition.toJson.names = ["Both", "Left", "Right", "Send"] ∧
      (m.permit (.allow "sns:Publish" (.string "arn:topic"))).Grants
        [.allow "lambda:InvokeFunction" (.string "arn:pack"),
          .allow "lambda:InvokeFunction" (.string "arn:pack"),
          .allow "lambda:InvokeFunction" (.string "arn:send"),
          .allow "sns:Publish" (.string "arn:topic")] := by
  have made : Workspace.newGraph .delivery (some ⟨0⟩) (Machine.label none) .null = .ok
      { start := ⟨0⟩, label := "State Machine StateMachine definition", timeout := none } := rfl
  have chosen : Json.isEmpty (.string "arn:role") = false := rfl
  obtain ⟨names, -, -, m, w', ok, same, grants⟩ :=
    machine_grants chosen made rfl rfl fun s _ => Workspace.delivery_textual s
  have policy : m.policy = Statement.document [.allow "lambda:InvokeFunction" (.string "arn:pack"),
      .allow "lambda:InvokeFunction" (.string "arn:send")] := by
    obtain ⟨⟩ := ok
    rfl
  refine ⟨m, w', ok, policy, same ▸ names, grants [.allow "sns:Publish" (.string "arn:topic")] ?_⟩
  decide

end Build
end Workflow
