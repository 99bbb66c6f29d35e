import Mathlib.Data.List.TakeWhile
import Workflow.Machine.Save
import Workflow.Proofs.Access
import Workflow.Proofs.Outcome

/-!
What comes of checking and saving a machine. A check that fails, and a response whose diagnostics
all say where they are, are answered by a truth value after one message for the status and one for
each diagnostic. At the first diagnostic that does not say where it is the report ends with a fault,
whatever the result of the check. The files of a machine are written together or not at all, and
only where the answer is that they are.
-/

namespace Workflow

/-- A diagnostic of a response, which need not say where it is. -/
structure Diagnostic where
  severity : String
  code : String
  message : String
  location : Option String

namespace Diagnostic

/-- Whether a value is a diagnostic. Its fields may be in any order and not the only ones. -/
structure Describes (d : Diagnostic) (value : Json) : Prop where
  severity : value.field? "severity" = some (.string d.severity)
  code : value.field? "code" = some (.string d.code)
  message : value.field? "message" = some (.string d.message)
  location : value.field? "location" = d.location.map .string

def isLocated (d : Diagnostic) : Bool := d.location.isSome

/-- What is said of a diagnostic that is located. -/
def text (d : Diagnostic) : String :=
  let place := d.location.getD ""
  s!"{d.severity}: {d.code}, {d.message} at {place}"

end Diagnostic

/-- What a response says: the result and diagnostics, which may be left out. -/
structure Verdict where
  result : String
  diagnostics : List Diagnostic

namespace Verdict

open Terminal

structure Describes (v : Verdict) (value : Json) : Prop where
  result : value.field? "result" = some (.string v.result)
  diagnostics : value.field? "diagnostics" = none ∧ v.diagnostics = [] ∨
    ∃ items, value.field? "diagnostics" = some (.array items) ∧
      List.Forall₂ Diagnostic.Describes v.diagnostics items

def isValid (v : Verdict) : Bool := v.result = "OK"

def status (v : Verdict) : String :=
  if v.isValid then inColor green "✅ State Machine definition is valid"
  else inColor red s!"State Machine definition is invalid: {v.result}"

def line (v : Verdict) (d : Diagnostic) : String :=
  if v.isValid then inColor yellow s!"⚠️  {d.text}" else inColor red s!"❌ {d.text}"

/-- Whether all diagnostics say where they are. -/
def isLocated (v : Verdict) : Bool := v.diagnostics.all Diagnostic.isLocated

end Verdict

variable {d : Diagnostic} {v : Verdict} {value : Json}

/-- Only objects have fields. -/
theorem Json.exists_of_field? {key : String} {value field : Json}
    (found : value.field? key = some field) : ∃ fields, value = .object fields := by
  cases value with
  | object fields => exact ⟨fields, rfl⟩
  | _ => cases found

theorem diagnosticText_of_describes (describes : d.Describes value) :
    diagnosticText value =
      if d.isLocated then .ok d.text else .error (.missingKey "location") := by
  obtain ⟨severity, code, message, location⟩ := describes
  obtain ⟨fields, rfl⟩ := Json.exists_of_field? severity
  obtain ⟨_, _, _, place⟩ := d
  simp only [diagnosticText, Json.required, severity, code, message, location]
  cases place <;> rfl

/-- Diagnostics are printed up to the first that does not say where it is. -/
theorem reportDiagnostics_of_describes {print : String → String} {answer : Bool}
    {diagnostics : List Diagnostic} {items : List Json}
    (each : List.Forall₂ Diagnostic.Describes diagnostics items) :
    reportDiagnostics print answer items =
      ⟨(diagnostics.takeWhile Diagnostic.isLocated).map fun d => print d.text,
        if diagnostics.all Diagnostic.isLocated then .ok answer
        else .error (.missingKey "location")⟩ := by
  induction each with
  | nil => rfl
  | @cons d item diagnostics items describes _ ih =>
    rw [reportDiagnostics, diagnosticText_of_describes describes, List.takeWhile_cons,
      List.all_cons]
    cases d.isLocated with
    | false => rfl
    | true => simp only [if_true, ih, List.map_cons, Bool.true_and]

namespace Reply

open Terminal

theorem check_of_describes (describes : v.Describes value) :
    (response value).check =
      ⟨v.status :: (v.diagnostics.takeWhile Diagnostic.isLocated).map v.line,
        if v.isLocated then .ok v.isValid else .error (.missingKey "location")⟩ := by
  obtain ⟨result, diagnostics⟩ := describes
  obtain ⟨fields, rfl⟩ := Json.exists_of_field? result
  have listed : ∃ items,
      ((Json.object fields).field? "diagnostics").getD (.array []) = .array items ∧
        List.Forall₂ Diagnostic.Describes v.diagnostics items := by
    rcases diagnostics with ⟨absent, none⟩ | ⟨items, given, each⟩
    · exact ⟨[], by rw [absent]; rfl, none ▸ .nil⟩
    · exact ⟨items, by rw [given]; rfl, each⟩
  obtain ⟨items, given, each⟩ := listed
  have valid : ((Json.string v.result).string? = some "OK") = (v.isValid = true) := by
    simp [Json.string?, Verdict.isValid]
  simp only [check, given, result, Option.getD_some, valid, Json.display, Json.elements,
    Json.elements?, reportDiagnostics_of_describes each, Bool.decide_eq_true]
  rfl

end Reply

namespace Machine

open Terminal

/-- The files of a machine that is saved. -/
def files (m : Machine) : List (String × String) :=
  [(definitionFile, m.definition.toJson.text .indented), (policyFile, m.policy.text .indented)]

/-- What is printed when a machine is saved. -/
def savedLines (d : Directory) : List String :=
  let path := fun file => d.name ++ "/" ++ file
  [inColor green s!"✅ State Machine saved to {path definitionFile}",
    inColor green s!"✅ Role Policy saved to {path policyFile}"]

variable {m : Machine} {d : Directory} {reply : Reply}

theorem write_of_present (present : d.isPresent = true) :
    m.write d = ⟨⟨savedLines d, .ok true⟩, m.files⟩ := by
  simp only [write, present, if_true]
  rfl

theorem save_of_valid (present : d.isPresent = true) (valid : reply.check.result = .ok true) :
    m.save d (some reply) = ⟨⟨reply.check.printed ++ savedLines d, .ok true⟩, m.files⟩ := by
  simp only [save, valid, write_of_present present]

theorem save_of_not_valid (other : reply.check.result ≠ .ok true) :
    m.save d (some reply) = ⟨reply.check, []⟩ := by
  rw [save]
  split
  · contradiction
  · rfl

/-- The files are written together, with the answer that they are, or not at all. -/
theorem files_or_none (present : d.isPresent = true) (reply? : Option Reply) :
    (m.save d reply?).files = m.files ∧ (m.save d reply?).report.result = .ok true ∨
      (m.save d reply?).files = [] ∧ (m.save d reply?).report.result ≠ .ok true := by
  cases reply? with
  | none =>
    left
    rw [save, write_of_present present]
    exact ⟨rfl, rfl⟩
  | some reply =>
    by_cases valid : reply.check.result = .ok true
    · left
      rw [save_of_valid present valid]
      exact ⟨rfl, rfl⟩
    · right
      rw [save_of_not_valid valid]
      exact ⟨rfl, valid⟩

/-- Where the call fails or all diagnostics say where they are, a check ends in an answer, after a
message for the status and one for each diagnostic in order, and a machine is saved exactly if the
answer is that its definition is valid. At the first diagnostic that does not say where it is a
check ends with a fault, whatever the result, and nothing is saved. In any case both files are
written or none. -/
theorem checked_and_saved (m : Machine) (d : Directory) (present : d.isPresent = true) :
    (∀ text, (Reply.failure text).check =
        ⟨[inColor red s!"❌ Validate State Machine Definition Process Failed: {text}"], .ok false⟩ ∧
      m.save d (some (.failure text)) = ⟨(Reply.failure text).check, []⟩) ∧
    (∀ (v : Verdict) value, v.Describes value → v.isLocated = true →
      (Reply.response value).check = ⟨v.status :: v.diagnostics.map v.line, .ok v.isValid⟩ ∧
      m.save d (some (.response value)) =
        if v.isValid then
          ⟨⟨v.status :: v.diagnostics.map v.line ++ savedLines d, .ok true⟩, m.files⟩
        else ⟨⟨v.status :: v.diagnostics.map v.line, .ok false⟩, []⟩) ∧
    (∀ (v : Verdict) value, v.Describes value → v.isLocated = false →
      (Reply.response value).check =
        ⟨v.status :: (v.diagnostics.takeWhile Diagnostic.isLocated).map v.line,
          .error (.missingKey "location")⟩ ∧
      m.save d (some (.response value)) = ⟨(Reply.response value).check, []⟩) ∧
    ∀ reply?, (m.save d reply?).files = m.files ∧ (m.save d reply?).report.result = .ok true ∨
      (m.save d reply?).files = [] ∧ (m.save d reply?).report.result ≠ .ok true := by
  refine ⟨fun text => ⟨rfl, rfl⟩, ?_, ?_, files_or_none present⟩
  · intro v value describes located
    have all : v.diagnostics.takeWhile Diagnostic.isLocated = v.diagnostics :=
      List.takeWhile_eq_self_iff.mpr (List.all_eq_true.mp located)
    have checked := Reply.check_of_describes describes
    rw [all, if_pos located] at checked
    refine ⟨checked, ?_⟩
    cases valid : v.isValid with
    | true =>
      rw [valid] at checked
      rw [save_of_valid present (by rw [checked]), checked, if_pos rfl]
    | false =>
      rw [valid] at checked
      rw [save_of_not_valid (by simp [checked]), checked]
      rfl
  · intro v value describes unlocated
    have checked := Reply.check_of_describes describes
    rw [unlocated, if_neg Bool.false_ne_true] at checked
    exact ⟨checked, save_of_not_valid (by simp [checked])⟩

/-- A response that finds a definition valid and remarks on it, at some place or at none. -/
def remark (place : List (String × Json)) : Json :=
  .object [("result", .string "OK"), ("diagnostics", .array [.object
    ([("severity", .string "WARNING"), ("code", .string "W1"), ("message", .string "note")] ++
      place)])]

theorem approval_saved :
    ∃ m w', Build.machine (some ⟨0⟩) (.string "arn:role") none .null .approval = .ok m w' ∧
      (Reply.response (remark [("location", .string "/States/Ask")])).check =
        ⟨[inColor green "✅ State Machine definition is valid",
          inColor yellow "⚠️  WARNING: W1, note at /States/Ask"], .ok true⟩ ∧
      (m.save ⟨"out", true⟩
        (some (.response (remark [("location", .string "/States/Ask")])))).files = m.files ∧
      (m.save ⟨"out", true⟩ (some (.failure "no route"))).files = [] := by
  obtain ⟨m, w', made⟩ : ∃ m w', Build.machine (some ⟨0⟩) (.string "arn:role") none .null
      .approval = .ok m w' := ⟨_, _, rfl⟩
  obtain ⟨failed, located, -, -⟩ := checked_and_saved m ⟨"out", true⟩ rfl
  have describes : Verdict.Describes
      ⟨"OK", [⟨"WARNING", "W1", "note", some "/States/Ask"⟩]⟩
      (remark [("location", .string "/States/Ask")]) :=
    ⟨rfl, .inr ⟨_, rfl, .cons ⟨rfl, rfl, rfl, rfl⟩ .nil⟩⟩
  obtain ⟨checked, saved⟩ := located _ _ describes rfl
  exact ⟨m, w', made, checked, by rw [saved]; rfl, by rw [(failed "no route").2]⟩

/-- A remark that does not say what it is about ends the check of a valid definition. -/
theorem unlocated_remark_raised :
    Verdict.Describes ⟨"OK", [⟨"WARNING", "W1", "note", none⟩]⟩ (remark []) ∧
      (Reply.response (remark [])).check =
        ⟨[inColor green "✅ State Machine definition is valid"], .error (.missingKey "location")⟩ ∧
      ∃ m w', Build.machine (some ⟨0⟩) (.string "arn:role") none .null .approval = .ok m w' ∧
        m.save ⟨"out", true⟩ (some (.response (remark []))) =
          ⟨(Reply.response (remark [])).check, []⟩ := by
  have describes : Verdict.Describes ⟨"OK", [⟨"WARNING", "W1", "note", none⟩]⟩ (remark []) :=
    ⟨rfl, .inr ⟨_, rfl, .cons ⟨rfl, rfl, rfl, rfl⟩ .nil⟩⟩
  exact ⟨describes, rfl, _, _, rfl, rfl⟩

end Machine
end Workflow
