import Workflow.Proofs.Abstraction
import Workflow.Proofs.Answers
import Workflow.Proofs.Keeping
import Workflow.Proofs.Parsing
import Workflow.Proofs.Permissions

/-!
Rules of choices. A condition that can be made is a tree over comparisons whose literals are of the
type that the operator asks for by how it begins. Its object has the keys of its constructor and no
key for a target, so that a rule adds one and overwrites nothing: the condition and the target are
read back from a rule, and two rules are the same object, with fields in any order and literals
compared by what they count as, only if they have the same target and conditions that differ in such
literals at most.
-/

namespace Workflow

/-- Which literals an operator is given that begins with a word. -/
inductive Literal : (word : String) → Json → Prop
  | string (text : String) : Literal "String" (.string text)
  | numeric (number : Number) : Literal "Numeric" (.number number)
  | boolean (truth : Bool) : Literal "Boolean" (.bool truth)
  | timestamp (text : String) : Literal "Timestamp" (.string text)
  | isPresent (truth : Bool) : Literal "IsPresent" (.bool truth)
  | isNull (truth : Bool) : Literal "IsNull" (.bool truth)

namespace Family

variable {operator word : String} {operand : Json} {family : Family}

theorem word_of_ofOperator? (known : ofOperator? operator = some family)
    (fits : family.accepts operand = true) :
    ∃ word, word.toList <+: operator.toList ∧ Literal word operand := by
  obtain ⟨⟨word, found⟩, member, same⟩ := List.exists_of_findSome?_eq_some known
  simp only [Option.ite_none_right_eq_some, List.isPrefixOf_iff_prefix, Option.some.injEq] at same
  obtain ⟨begins, rfl⟩ := same
  refine ⟨word, begins, ?_⟩
  simp only [List.mem_cons, Prod.mk.injEq, List.not_mem_nil, or_false] at member
  rcases member with ⟨rfl, rfl⟩ | ⟨rfl, rfl⟩ | ⟨rfl, rfl⟩ | ⟨rfl, rfl⟩ | ⟨rfl, rfl⟩ | ⟨rfl, rfl⟩ <;>
    cases operand <;> cases fits <;> constructor

/-- The words are apart from their first letters on, or second ones, so that an operator begins with
one of them at most. -/
theorem ofOperator?_of_word (begins : word.toList <+: operator.toList)
    (literal : Literal word operand) :
    ∃ family, ofOperator? operator = some family ∧ family.accepts operand = true := by
  obtain ⟨rest, same⟩ := begins
  unfold ofOperator?
  rw [← same]
  cases literal with
  | string | timestamp => exact ⟨.text, rfl, rfl⟩
  | numeric => exact ⟨.number, rfl, rfl⟩
  | boolean | isPresent | isNull => exact ⟨.truth, rfl, rfl⟩

end Family

theorem Json.lookup_of_sameFields {fields others : List (String × Json)}
    (same : sameFields fields others = true) :
    ∀ field ∈ fields, (others.lookup field.1).isSome = true := by
  induction fields with
  | nil => simp
  | cons field fields ih =>
    obtain ⟨first, rest⟩ := Bool.and_eq_true_iff.mp same
    refine List.forall_mem_cons.mpr ⟨?_, ih rest⟩
    cases found : others.lookup field.1 with
    | none => simp [found] at first
    | some value => rfl

theorem Json.sameFields_append (fields more others : List (String × Json)) :
    sameFields (fields ++ more) others = (sameFields fields others && sameFields more others) := by
  induction fields with
  | nil => rfl
  | cons field fields ih => rw [List.cons_append, sameFields, sameFields, ih, Bool.and_assoc]

theorem Json.sameFields_congr {fields others more : List (String × Json)}
    (same : ∀ field ∈ fields, others.lookup field.1 = more.lookup field.1) :
    sameFields fields others = sameFields fields more := by
  induction fields with
  | nil => rfl
  | cons field fields ih =>
    obtain ⟨first, rest⟩ := List.forall_mem_cons.mp same
    rw [sameFields, sameFields, first, ih rest]

namespace Condition

/-- Whether a condition is one of the trees that can be made. -/
inductive Proper : Condition → Prop
  | compare {path operator word : String} {operand : Json} : path.toList.head? = some '$' →
      word.toList <+: operator.toList → Literal word operand →
      Proper (.compare path operator operand)
  | all {operands : List Condition} : operands ≠ [] → (∀ c ∈ operands, Proper c) →
      Proper (.all operands)
  | any {operands : List Condition} : operands ≠ [] → (∀ c ∈ operands, Proper c) →
      Proper (.any operands)
  | not {operand : Condition} : Proper operand → Proper (.not operand)

/-- The keys of the object of a condition. -/
def keys : Condition → List String
  | compare _ operator _ => ["Variable", operator]
  | all _ => ["And"]
  | any _ => ["Or"]
  | not _ => ["Not"]

variable {path operand : Json} {operator : String} {operands : List Condition}
  {condition other : Condition}

theorem comparison_eq_ok : comparison path operator operand = .ok condition ↔
    ∃ text word, path = .string text ∧ text.toList.head? = some '$' ∧
      word.toList <+: operator.toList ∧ Literal word operand ∧
      condition = .compare text operator operand := by
  constructor
  · intro ok
    unfold comparison at ok
    split at ok
    · split at ok
      · rename_i dollar
        split at ok
        · cases ok
        · rename_i family known
          split at ok
          · rename_i fits
            cases ok
            obtain ⟨word, begins, literal⟩ := Family.word_of_ofOperator? known fits
            exact ⟨_, word, rfl, dollar, begins, literal, rfl⟩
          · cases ok
      · cases ok
    · cases ok
  · rintro ⟨text, word, rfl, dollar, begins, literal, rfl⟩
    obtain ⟨family, known, fits⟩ := Family.ofOperator?_of_word begins literal
    simp only [comparison, if_pos dollar, known, if_pos fits]

theorem conjunction_eq_ok :
    conjunction operands = .ok condition ↔ operands ≠ [] ∧ condition = .all operands := by
  cases operands <;> simp [conjunction, eq_comm]

theorem disjunction_eq_ok :
    disjunction operands = .ok condition ↔ operands ≠ [] ∧ condition = .any operands := by
  cases operands <;> simp [disjunction, eq_comm]

theorem made_iff_proper : condition.Made ↔ condition.Proper := by
  constructor
  · intro made
    induction made with
    | comparison ok =>
      obtain ⟨text, word, -, dollar, begins, literal, rfl⟩ := comparison_eq_ok.mp ok
      exact .compare dollar begins literal
    | conjunction _ ok ih =>
      obtain ⟨some, rfl⟩ := conjunction_eq_ok.mp ok
      exact .all some ih
    | disjunction _ ok ih =>
      obtain ⟨some, rfl⟩ := disjunction_eq_ok.mp ok
      exact .any some ih
    | not _ ih => exact .not ih
  · intro proper
    induction proper with
    | compare dollar begins literal =>
      exact .comparison (comparison_eq_ok.mpr ⟨_, _, rfl, dollar, begins, literal, rfl⟩)
    | all some _ ih => exact .conjunction ih (conjunction_eq_ok.mpr ⟨some, rfl⟩)
    | any some _ ih => exact .disjunction ih (disjunction_eq_ok.mpr ⟨some, rfl⟩)
    | not _ ih => exact .not ih

theorem keys_fields (condition : Condition) : condition.fields.map (·.1) = condition.keys := by
  cases condition <;> rfl

/-- An operator that begins with one of the words is not the key of a path or of a target. -/
theorem operator_ne {word : String} (begins : word.toList <+: operator.toList)
    (literal : Literal word operand) : operator ≠ "Variable" ∧ operator ≠ "Next" := by
  constructor <;> rintro rfl <;> cases literal <;> exact absurd begins (by decide)

theorem Proper.keys_nodup (proper : condition.Proper) :
    condition.keys.Nodup ∧ "Next" ∉ condition.keys := by
  cases proper with
  | compare _ begins literal =>
    obtain ⟨path, next⟩ := operator_ne begins literal
    simp [keys, path.symm, next.symm]
  | all | any | not => simp [keys]

/-- Whether two conditions are the same up to literals, which count as the same. -/
inductive Like : Condition → Condition → Prop
  | compare {path operator : String} {operand operand' : Json} : operand.same operand' = true →
      Like (.compare path operator operand) (.compare path operator operand')
  | all {operands others : List Condition} : operands.length = others.length →
      (∀ pair ∈ operands.zip others, Like pair.1 pair.2) → Like (.all operands) (.all others)
  | any {operands others : List Condition} : operands.length = others.length →
      (∀ pair ∈ operands.zip others, Like pair.1 pair.2) → Like (.any operands) (.any others)
  | not {operand operand' : Condition} : Like operand operand' →
      Like (.not operand) (.not operand')

theorem keys_of_same (same : condition.toJson.same other.toJson = true) :
    condition.keys.length = other.keys.length ∧ condition.keys ⊆ other.keys := by
  obtain ⟨count, found⟩ := Bool.and_eq_true_iff.mp same
  rw [← keys_fields, ← keys_fields, List.length_map, List.length_map]
  refine ⟨by simpa using count, ?_⟩
  intro key member
  obtain ⟨field, listed, rfl⟩ := List.mem_map.mp member
  have held := Json.lookup_of_sameFields found field listed
  obtain ⟨field', listed', same⟩ := List.lookup_isSome_iff.mp held
  exact List.mem_map.mpr ⟨field', listed', (eq_of_beq same).symm⟩

theorem sameItems_objects {operands others : List Condition}
    (each : ∀ c ∈ operands, ∀ d ∈ others, c.toJson.same d.toJson = true ↔ c.Like d) :
    Json.sameItems (objects operands) (objects others) = true ↔
      operands.length = others.length ∧ ∀ pair ∈ operands.zip others, Like pair.1 pair.2 := by
  induction operands generalizing others with
  | nil => cases others <;> simp [objects, Json.sameItems]
  | cons c operands ih =>
    cases others with
    | nil => simp [objects, Json.sameItems]
    | cons d others =>
      obtain ⟨first, rest⟩ := List.forall_mem_cons.mp each
      have rest : ∀ c ∈ operands, ∀ d ∈ others, c.toJson.same d.toJson = true ↔ c.Like d :=
        fun c member d member' => rest c member d (List.mem_cons_of_mem _ member')
      have first : (Json.object c.fields).same (.object d.fields) = true ↔ c.Like d :=
        first d List.mem_cons_self
      rw [objects, objects, Json.sameItems, Bool.and_eq_true, first, ih rest]
      simp only [List.length_cons, Nat.add_right_cancel_iff, List.zip_cons_cons,
        List.forall_mem_cons]
      tauto

theorem same_connective {operands others : List Condition} (word : String)
    (each : ∀ c ∈ operands, ∀ d ∈ others, c.toJson.same d.toJson = true ↔ c.Like d) :
    (Json.object [(word, .array (objects operands))]).same
        (.object [(word, .array (objects others))]) = true ↔
      operands.length = others.length ∧ ∀ pair ∈ operands.zip others, Like pair.1 pair.2 := by
  rw [← sameItems_objects each]
  simp [Json.same, Json.sameFields]

/-- Conditions whose keys differ are neither the same object nor alike. -/
theorem same_iff_of_keys
    (apart : condition.keys.length = other.keys.length → ¬ condition.keys ⊆ other.keys)
    (unlike : ¬ condition.Like other) :
    condition.toJson.same other.toJson = true ↔ condition.Like other :=
  iff_of_false (fun same => apart (keys_of_same same).1 (keys_of_same same).2) unlike

/-- Conditions have the same object exactly if they are alike. -/
theorem same_toJson_iff (proper : condition.Proper) (proper' : other.Proper) :
    condition.toJson.same other.toJson = true ↔ condition.Like other := by
  induction proper generalizing other with
  | @compare path operator word operand dollar begins literal =>
    have apart := beq_eq_false_iff_ne.mpr (operator_ne begins literal).1
    cases proper' with
    | @compare path' operator' _ operand' =>
      have found : (toJson (.compare path operator operand)).same
            (toJson (.compare path' operator' operand')) = true ↔
          path = path' ∧ operator = operator' ∧ operand.same operand' = true := by
        by_cases same : operator = operator'
        · subst same
          simp [toJson, fields, Json.same, Json.sameFields, List.lookup_cons, apart]
        · simp [toJson, fields, Json.same, Json.sameFields, List.lookup_cons, apart, same,
            beq_eq_false_iff_ne.mpr same]
      rw [found]
      constructor
      · rintro ⟨rfl, rfl, same⟩
        exact .compare same
      · intro like
        cases like with
        | compare same => exact ⟨rfl, rfl, same⟩
    | all | any | not => exact same_iff_of_keys (by simp [keys]) (by rintro ⟨⟩)
  | @all operands some proper ih =>
    cases proper' with
    | @all others _ proper' =>
      refine (same_connective "And" fun c member d member' =>
        ih c member (proper' d member')).trans ?_
      constructor
      · rintro ⟨count, each⟩
        exact .all count each
      · intro like
        cases like with
        | all count each => exact ⟨count, each⟩
    | compare | any | not => exact same_iff_of_keys (by simp [keys]) (by rintro ⟨⟩)
  | @any operands some proper ih =>
    cases proper' with
    | @any others _ proper' =>
      refine (same_connective "Or" fun c member d member' =>
        ih c member (proper' d member')).trans ?_
      constructor
      · rintro ⟨count, each⟩
        exact .any count each
      · intro like
        cases like with
        | any count each => exact ⟨count, each⟩
    | compare | all | not => exact same_iff_of_keys (by simp [keys]) (by rintro ⟨⟩)
  | @not operand proper ih =>
    cases proper' with
    | @not operand' proper' =>
      have found : (toJson (.not operand)).same (toJson (.not operand')) =
          operand.toJson.same operand'.toJson := by
        simp [toJson, fields, Json.same, Json.sameFields]
      rw [found, ih proper']
      constructor
      · exact .not
      · intro like
        cases like with
        | not like => exact like
    | compare | all | any => exact same_iff_of_keys (by simp [keys]) (by rintro ⟨⟩)

end Condition

namespace Rule

variable {rule other : Rule String}

/-- A rule is the object of its condition with the target behind it. -/
theorem toJson_eq (proper : rule.condition.Proper) :
    rule.toJson = .object (rule.condition.fields ++ [("Next", .string rule.target)]) := by
  rw [toJson, Reader.setField_of_notMem]
  rw [Condition.keys_fields]
  exact proper.keys_nodup.2

/-- Rules are the same object exactly if they have the same target and conditions that are alike. -/
theorem same_toJson_iff (proper : rule.condition.Proper) (proper' : other.condition.Proper) :
    rule.toJson.same other.toJson = true ↔
      rule.condition.Like other.condition ∧ rule.target = other.target := by
  have absent {c : Condition} (proper : c.Proper) : c.fields.lookup "Next" = none := by
    refine List.lookup_eq_none_iff.mpr fun field member => bne_iff_ne.mpr fun same => ?_
    exact proper.keys_nodup.2 (c.keys_fields ▸ same.symm ▸ List.mem_map_of_mem member)
  have apart : ∀ field ∈ rule.condition.fields,
      (other.condition.fields ++ [("Next", Json.string other.target)]).lookup field.1 =
        other.condition.fields.lookup field.1 := by
    intro field member
    have different : field.1 ≠ "Next" := by
      rintro same
      exact proper.keys_nodup.2 (rule.condition.keys_fields ▸ same ▸ List.mem_map_of_mem member)
    rw [List.lookup_append, Json.lookup_cons_of_ne different]
    simp
  have last : Json.sameFields [("Next", Json.string rule.target)]
        (other.condition.fields ++ [("Next", Json.string other.target)]) = true ↔
      rule.target = other.target := by
    simp [Json.sameFields, List.lookup_append, absent proper', Json.same_string]
  rw [← Condition.same_toJson_iff proper proper', toJson_eq proper, toJson_eq proper',
    Condition.toJson, Condition.toJson, Json.same, Json.same, Json.sameFields_append,
    Json.sameFields_congr apart, List.length_append, List.length_append]
  simp only [Bool.and_eq_true, last]
  simp [and_assoc]

end Rule

theorem Test.made {test : Test} {path operand : Json} {condition : Condition}
    (ok : test.condition path operand = .ok condition) : condition.Made := by
  have compared : ∃ literal, test.condition path operand =
      Condition.comparison path test.operator literal := by
    cases test <;> exact ⟨_, rfl⟩
  obtain ⟨literal, same⟩ := compared
  exact .comparison (same ▸ ok)

namespace Runs

variable {w w' : Workspace} {ops : List Operation} {ref : GraphRef} {document : Document}

/-- The rules of a choice as an entry shows them. -/
theorem choices_of_entry (runs : Runs {} ops w) {m : Member} {e : Entry} (ok : w.entry m = .ok e)
    {rules : List (Rule Target)} {tails : List StateId}
    (kind : (w.state m.state).kind = .choice rules tails) (nested : List Json) :
    ((e.toJson nested).get "Choices").items.map Rule.read =
      rules.map fun rule => ⟨rule.condition, w.nameOf rule.target⟩ := by
  obtain ⟨content, -⟩ := Workspace.entry_eq_ok ok
  rw [Workspace.content?, kind] at content
  have shown := (Option.some.inj content).symm
  rw [Entry.choices_toJson shown, List.map_map, List.map_map]
  refine List.map_congr_left fun rule member => ?_
  have listed : rule ∈ (w.state m.state).rules := by rwa [State.rules, kind]
  exact Rule.read_toJson (runs.made m.state rule listed)

/-- Rules are rendered unambiguously. The comparisons that are accepted are those of a path with a
literal of the type that the operator begins with, and all conditions that can be made are proper
trees over these. A rule is the object of its condition, with the keys of its constructor, and the
target behind it; both are read back from it, so that different rules are different objects. In
every history the choices of a document read back as the rules of the states, and the document can
be asked for again. -/
theorem rules_unambiguous (runs : Runs {} ops w)
    (handed : Build.document ref w = .ok document w') :
    (∀ path operator operand condition,
      Condition.comparison path operator operand = .ok condition ↔
        ∃ text word, path = .string text ∧ text.toList.head? = some '$' ∧
          word.toList <+: operator.toList ∧ Literal word operand ∧
          condition = .compare text operator operand) ∧
      (∀ (test : Test) path operand condition,
        test.condition path operand = .ok condition → condition.Made) ∧
      (∀ condition : Condition, condition.Made → condition.Proper ∧
        condition.fields.map (·.1) = condition.keys ∧ condition.keys.Nodup ∧
        "Next" ∉ condition.keys) ∧
      (∀ rule : Rule String, rule.condition.Made →
        rule.toJson = .object (rule.condition.fields ++ [("Next", .string rule.target)]) ∧
          Rule.read rule.toJson = rule ∧
          ∀ other : Rule String, other.condition.Made →
            (rule.toJson = other.toJson → rule = other) ∧
              (rule.toJson.same other.toJson = true ↔
                rule.condition.Like other.condition ∧ rule.target = other.target)) ∧
      (∃ level, Build.level ref w = .ok level w' ∧
        List.Forall₂ (fun m (e : Entry) => ∀ rules tails,
          (w.state m.state).kind = .choice rules tails → ∀ nested,
            ((e.toJson nested).get "Choices").items.map Rule.read =
              rules.map fun rule => ⟨rule.condition, w.nameOf rule.target⟩)
          level.preorder document.preorder) ∧
      w'.states = w.states ∧
      Question.document.outcome ref w' = .ok (.document document) := by
  refine ⟨fun _ _ _ _ => Condition.comparison_eq_ok, fun _ _ _ _ => Test.made, ?_, ?_, ?_, ?_⟩
  · intro condition made
    have proper := Condition.made_iff_proper.mp made
    exact ⟨proper, condition.keys_fields, proper.keys_nodup⟩
  · intro rule made
    have proper := Condition.made_iff_proper.mp made
    refine ⟨Rule.toJson_eq proper, Rule.read_toJson made, fun other made' => ⟨fun same => ?_, ?_⟩⟩
    · rw [← Rule.read_toJson made, same, Rule.read_toJson made']
    · exact Rule.same_toJson_iff proper (Condition.made_iff_proper.mp made')
  · obtain ⟨level, found, rendered⟩ := Build.level_of_document handed
    refine ⟨level, found, (Workspace.document_preorder rendered).imp ?_⟩
    exact fun m e ok rules tails kind nested => runs.choices_of_entry ok kind nested
  · obtain ⟨level, found, -⟩ := Build.level_of_document handed
    obtain ⟨c, compiled, rfl, -⟩ := Build.level_ok found
    have asked : Question.document.outcome ref w = .ok (.document document) := by
      simp only [Question.outcome, Question.ask, Functor.map, EStateM.map, handed, Outcome.of]
    exact ⟨rfl, (Build.outcome_keep compiled _ ref).trans asked⟩

def late : { c : Condition // c.Made } :=
  ⟨.compare "$.due" "TimestampLessThan" (.string "2024-01-01"), .comparison
    (rfl : Condition.comparison (.string "$.due") "TimestampLessThan" (.string "2024-01-01") =
      .ok _)⟩

/-- A choice that asks the same twice, once as a part of another condition. -/
def routing : List Operation :=
  [.edit (.scope "T" none), .edit (.state ⟨0⟩ "Route" none {} .choice),
    .edit (.state ⟨0⟩ "Hold" none {} .succeed), .edit (.state ⟨0⟩ "Ship" none {} .succeed),
    .edit (.rule ⟨0⟩ (.ok ⟨.all [.not late.1, late.1], .conjunction
      (List.forall_mem_cons.mpr ⟨.not late.2, by simpa using late.2⟩) rfl⟩) (.state ⟨1⟩)),
    .edit (.rule ⟨0⟩ (.ok late) (.state ⟨1⟩)), .edit (.rule ⟨0⟩ (.ok late) (.state ⟨2⟩)),
    .inquiry (.graph (some ⟨0⟩) "" .null)]

theorem routing_unambiguous :
    ∃ w document w', Runs {} routing w ∧
      Build.document ⟨⟨0⟩, []⟩ w = .ok document w' ∧
      Question.document.outcome ⟨⟨0⟩, []⟩ w' = .ok (.document document) ∧
      (Rule.toJson ⟨late.1, "Hold"⟩).same (Rule.toJson ⟨late.1, "Ship"⟩) = false ∧
      ∃ level, Build.level ⟨⟨0⟩, []⟩ w = .ok level w' ∧
        List.Forall₂ (fun m (e : Entry) => ∀ rules tails,
          (w.state m.state).kind = .choice rules tails → ∀ nested,
            ((e.toJson nested).get "Choices").items.map Rule.read =
              rules.map fun rule => ⟨rule.condition, w.nameOf rule.target⟩)
          level.preorder document.preorder := by
  have runs : Runs {} routing _ := .of_allows (by decide)
  obtain ⟨document, w', ok⟩ : ∃ document w',
      Build.document ⟨⟨0⟩, []⟩ (Workspace.run {} routing) = .ok document w' := ⟨_, _, rfl⟩
  obtain ⟨-, -, -, rendered, shown, -, again⟩ := runs.rules_unambiguous ok
  obtain ⟨-, -, apart⟩ := rendered ⟨late.1, "Hold"⟩ late.2
  have different : (Rule.toJson ⟨late.1, "Hold"⟩).same (Rule.toJson ⟨late.1, "Ship"⟩) ≠ true :=
    fun same => absurd ((apart ⟨late.1, "Ship"⟩ late.2).2.mp same).2 (by decide)
  exact ⟨_, document, w', runs, ok, again, Bool.eq_false_iff.mpr different, shown⟩

end Runs
end Workflow
