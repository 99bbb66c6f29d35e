import Workflow.Proofs.Checking
import Workflow.Proofs.Parsing
import Workflow.Proofs.Rates

/-!
What the texts of a machine carry. The objects of a definition have distinct keys if those that were
given for its states have, so that its text is read as the definition, on one line and on many; and
so is the text of the policy. Machines whose definitions have the same text have the same
definition.
-/

namespace Workflow

namespace Json

theorem isKeyed_array {items : List Json} :
    (array items).isKeyed = true ↔ ∀ item ∈ items, item.isKeyed = true := by
  rw [isKeyed]
  induction items with
  | nil => simp [areKeyed]
  | cons item items ih => simp [areKeyed, ih]

theorem haveKeys_iff {fields : List (String × Json)} :
    haveKeys fields = true ↔ ∀ field ∈ fields, field.2.isKeyed = true := by
  induction fields with
  | nil => simp [haveKeys]
  | cons field fields ih => simp [haveKeys, ih]

theorem isKeyed_object {fields : List (String × Json)} :
    (object fields).isKeyed = true ↔
      (fields.map (·.1)).Nodup ∧ ∀ field ∈ fields, field.2.isKeyed = true := by
  rw [isKeyed, Bool.and_eq_true_iff, haveKeys_iff, decide_eq_true_iff]

theorem isKeyed_inherited : Inherited (·.isKeyed = true) List.Nodup where
  string _ := rfl
  bool _ := rfl
  nat _ := rfl
  array := isKeyed_array
  object := isKeyed_object
  distinct := id
  join fresh keys := by
    refine List.nodup_append.mpr ⟨keys, List.nodup_singleton _, fun _ member _ last => ?_⟩
    rw [List.mem_singleton.mp last]
    exact ne_of_mem_of_not_mem member fresh

end Json

/-- Whether all objects that were given for a state have distinct keys. -/
def State.Keyed (s : State) : Prop := ∀ value ∈ s.given, value.isKeyed = true

instance (s : State) : Decidable s.Keyed := inferInstanceAs (Decidable (∀ _ ∈ _, _))

namespace Statement

def Keyed (t : Statement) : Prop := ∀ value ∈ t.actions ++ t.resources, value.isKeyed = true

instance (t : Statement) : Decidable t.Keyed := inferInstanceAs (Decidable (∀ _ ∈ _, _))

theorem keyed_of_hashable {t : Statement} (hashable : t.checkHashable = .ok ()) : t.Keyed := by
  intro value member
  have plain := Outcome.forM_eq_ok.mp hashable value member
  cases value with
  | array | object => cases plain
  | null | bool | number | string => rfl

theorem isKeyed_document {statements : List Statement} (keyed : ∀ t ∈ statements, t.Keyed) :
    (document statements).isKeyed = true := by
  have items : ∀ t ∈ statements, t.toJson.isKeyed = true := by
    intro t member
    obtain ⟨actions, resources⟩ := List.forall_mem_append.mp (keyed t member)
    refine Json.isKeyed_object.mpr ⟨by simp, ?_⟩
    simp only [List.forall_mem_cons, List.not_mem_nil, false_imp_iff, implies_true, and_true]
    exact ⟨rfl, Json.isKeyed_array.mpr actions, Json.isKeyed_array.mpr resources⟩
  refine Json.isKeyed_object.mpr ⟨by simp, ?_⟩
  simp only [List.forall_mem_cons, List.not_mem_nil, false_imp_iff, implies_true, and_true]
  exact ⟨rfl, Json.isKeyed_array.mpr (List.forall_mem_map.mpr items)⟩

end Statement

/-- The definition of a graph that compiles has distinct keys if what was given has. -/
theorem Workspace.isKeyed_document {w : Workspace} {g : Graph} {c : Compiled}
    {document : Document} (compiled : w.compile g.label g.start = .ok c)
    (rendered : w.document (g.level c) = .ok document) (keyed : ∀ s, (w.state s).Keyed) :
    document.toJson.isKeyed = true := by
  obtain ⟨sound, registered, names⟩ := level_of_compile compiled
  have distinct : ((g.level c).preorder.map (·.name)).Nodup := names ▸ registered.distinct
  refine inherits_of_given Json.isKeyed_inherited rendered (fits_of_sound rendered sound) ?_
    fun m _ => keyed m.state
  intro d within
  obtain ⟨l, below, ok⟩ := Outcome.exists_of_forall₂_right (document_levels rendered) within
  rw [← Document.keys_toJson]
  exact nodup_keys (Level.distinct_of_mem_levels distinct below) ok

namespace Machine

variable {m n : Machine} {t : Statement}

/-- The machines that are made of states for which objects with distinct keys were given, with
permissions that are added later. -/
inductive Made : Machine → Prop
  | machine {w w' : Workspace} {definition : Option StateId} {role timeout : Json}
      {name : Option String} {m : Machine} : (∀ s, (w.state s).Keyed) →
      Build.machine definition role name timeout w = .ok m w' → Made m
  | permit {m : Machine} {t : Statement} : Made m → t.Keyed → Made (m.permit t)

/-- Whether all objects in the definition and in the policy of a machine have distinct keys. -/
structure Keyed (m : Machine) : Prop where
  definition : m.definition.toJson.isKeyed = true
  statements : ∀ t ∈ m.statements, t.Keyed

theorem Keyed.permit (keyed : m.Keyed) (added : t.Keyed) : (m.permit t).Keyed := by
  unfold Machine.permit
  split
  · exact keyed
  · exact ⟨keyed.definition,
      List.forall_mem_append.mpr ⟨keyed.statements, List.forall_mem_singleton.mpr added⟩⟩

theorem Made.keyed (made : m.Made) : m.Keyed := by
  induction made with
  | machine given made =>
    obtain ⟨graph, c, compiled, rendered, -, -, hashable⟩ := Build.machine_eq_ok made
    exact ⟨Workspace.isKeyed_document compiled rendered given,
      fun t member => Statement.keyed_of_hashable (hashable t member)⟩
  | permit _ added ih => exact ih.permit added

/-- Whether the texts that a machine gives out and those that are saved of it are read as its
definition and its policy. -/
structure Readable (m : Machine) : Prop where
  text : Json.parse m.definitionText = some m.definition.toJson.plain
  properties : ∃ text, m.properties.lookup "DefinitionString" = some (.string text) ∧
    Json.parse text = some m.definition.toJson.plain
  files : ∀ directory reply?, ∀ file ∈ (m.save directory reply?).files,
    file.1 = definitionFile ∧ Json.parse file.2 = some m.definition.toJson.plain ∨
      file.1 = policyFile ∧ Json.parse file.2 = some m.policy.plain
  saved : ∀ directory, directory.isPresent = true →
    (m.save directory none).files.map (·.1) = [definitionFile, policyFile]

theorem mem_files_of_write {directory : Directory} {file : String × String}
    (member : file ∈ (m.write directory).files) : file ∈ m.files := by
  cases present : directory.isPresent with
  | true => rwa [write_of_present present] at member
  | false => simp [write, present] at member

theorem mem_files_of_save {directory : Directory} {reply? : Option Reply} {file : String × String}
    (member : file ∈ (m.save directory reply?).files) : file ∈ m.files := by
  cases reply? with
  | none => exact mem_files_of_write member
  | some reply =>
    by_cases valid : reply.check.result = .ok true
    · simp only [save, valid] at member
      exact mem_files_of_write member
    · rw [save_of_not_valid valid] at member
      cases member

theorem Keyed.readable (keyed : m.Keyed) : m.Readable where
  text := Json.parse_compact keyed.definition
  properties := ⟨_, rfl, Json.parse_compact keyed.definition⟩
  files directory reply? file member := by
    have listed := mem_files_of_save member
    simp only [Machine.files, List.mem_cons, List.not_mem_nil, or_false] at listed
    rcases listed with rfl | rfl
    · exact .inl ⟨rfl, Json.parse_indented keyed.definition⟩
    · exact .inr ⟨rfl, Json.parse_indented (Statement.isKeyed_document keyed.statements)⟩
  saved directory present := by
    rw [save, write_of_present present]
    rfl

/-- The texts of a machine are read as its definition and its policy, and machines whose definitions
have the same text have the same definition. -/
theorem texts_read_back (made : m.Made) :
    m.Readable ∧ ∀ {n : Machine}, n.Made → n.definitionText = m.definitionText →
      n.definition.toJson.plain = m.definition.toJson.plain := by
  have readable := made.keyed.readable
  refine ⟨readable, fun {n} other same => ?_⟩
  have read := other.keyed.readable.text
  rw [same, readable.text] at read
  exact (Option.some.inj read).symm

end Machine

namespace Workspace

/-- A state whose name and result need escapes, a sign beyond the basic plane, empty and nested
values and numbers of both kinds. -/
def inscribed : Workspace where
  scopes := #[{ id := "S", path := "S", parent := none }]
  states := #[
    { scope := ⟨0⟩, id := "Maß \"1\"", path := "S/Maß \"1\"", name := "Maß \"1\"", common := {},
      kind := .pass { result := .object [("tab\t", .array []), ("𝄞\u0001", .object []),
        ("n", .array [.int (-12345678901234567890), .number (.float (.finite false
          ⟨4591870180066957722, by decide⟩))])] },
      exit := .stop }]

theorem inscribed_keyed (s : StateId) : (inscribed.state s).Keyed := by
  by_cases known : inscribed.HasState s
  · obtain ⟨i⟩ := s
    have inside : i < 1 := known
    interval_cases i
    decide
  · rw [state_of_not_hasState known]
    decide

end Workspace

namespace Machine

theorem inscribed_read_back :
    ∃ m w', Build.machine (some ⟨0⟩) (.string "arn:role") none .null .inscribed = .ok m w' ∧
      Json.parse m.definitionText = some m.definition.toJson ∧
      (m.permit (.allow "sns:Publish" (.string "arn:µ"))).Readable := by
  obtain ⟨m, w', made, finite⟩ : ∃ m w', Build.machine (some ⟨0⟩) (.string "arn:role") none .null
      .inscribed = .ok m w' ∧ m.definition.toJson.isFinite = true := ⟨_, _, rfl, rfl⟩
  have first : Made m := .machine Workspace.inscribed_keyed made
  obtain ⟨readable, -⟩ := texts_read_back first
  obtain ⟨permitted, -⟩ := texts_read_back
    (first.permit (by decide) : Made (m.permit (.allow "sns:Publish" (.string "arn:µ"))))
  exact ⟨m, w', made, Json.plain_of_isFinite _ finite ▸ readable.text, permitted⟩

end Machine
end Workflow
