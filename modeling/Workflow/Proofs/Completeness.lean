import Workflow.Proofs.Outcome
import Workflow.Validation

/-!
Complete states, as a condition on what they are. A state is complete by its way out and by what its
kind holds; what it is called and which errors it handles do not matter.
-/

namespace Workflow

namespace Json

/-- Whether a value is unset or a whole number that is not negative. -/
def OptionalNat (value : Json) : Prop := value.isNull = true ∨ value.nat?.isSome = true

theorem nat?_of_isNull {value : Json} (null : value.isNull = true) : value.nat? = none := by
  cases value with
  | null => rfl
  | _ => cases null

end Json

theorem checkOptional_eq_ok {state field : String} {value : Json} {n : Option Nat} :
    checkOptional state field value = .ok n ↔ value.OptionalNat ∧ n = value.nat? := by
  rw [checkOptional, Json.OptionalNat]
  by_cases null : value.isNull = true
  · simp [null, Json.nat?_of_isNull null, eq_comm]
  · rw [checkNatural]
    cases value.nat? <;> simp [null, Functor.map, Except.map, eq_comm]

theorem checkOptional_bind_eq_ok {α : Type} {state field : String} {value : Json}
    {next : Option Nat → Except Fault α} {a : α} :
    (checkOptional state field value >>= next) = .ok a ↔
      value.OptionalNat ∧ next value.nat? = .ok a := by
  simp only [Outcome.bind_eq_ok, checkOptional_eq_ok]
  constructor
  · rintro ⟨n, ⟨optional, rfl⟩, rest⟩
    exact ⟨optional, rest⟩
  · rintro ⟨optional, rest⟩
    exact ⟨_, ⟨optional, rfl⟩, rest⟩

theorem discard_checkOptional_eq_ok {state field : String} {value : Json} :
    discard (checkOptional state field value) = .ok () ↔ value.OptionalNat := by
  have discarded : discard (checkOptional state field value) =
      (checkOptional state field value >>= fun _ => .ok ()) := by
    cases checkOptional state field value <;> rfl
  rw [discarded, checkOptional_bind_eq_ok, and_iff_left rfl]

/-- What a kind has to hold for its state to be complete. An unbound task never is. -/
def Kind.Complete : Kind → Prop
  | task _ fields => fields.timeoutSeconds.OptionalNat ∧ fields.heartbeatSeconds.OptionalNat ∧
      ∀ beat limit, fields.heartbeatSeconds.nat? = some beat →
        fields.timeoutSeconds.nat? = some limit → beat < limit
  | wait fields => fields.given.length = 1 ∧ fields.seconds.OptionalNat
  | choice rules _ => rules ≠ []
  | parallel _ branches => branches ≠ []
  | map fields iterator => iterator.isSome = true ∧ fields.maxConcurrency.OptionalNat
  | pass _ | succeed | fail _ | plain => True
  | unbound => False

namespace State

variable {s : State}

structure Complete (s : State) : Prop where
  exit : s.type? ≠ some .choice → s.isTerminal = false → s.exit ≠ .unset
  kind : s.kind.Complete

theorem Complete.bound (complete : s.Complete) : s.kind ≠ .unbound := by
  intro unbound
  have kind := complete.kind
  rw [unbound] at kind
  exact kind

theorem checkExit_eq_ok : s.checkExit = .ok () ↔ (s.isTerminal = false → s.exit ≠ .unset) := by
  rw [checkExit]
  cases s.exit <;> cases s.isTerminal <;> simp

theorem checkFields_eq_ok (other : s.type? ≠ some .choice) :
    s.checkFields = .ok () ↔ s.kind.Complete := by
  rw [type?] at other
  rw [checkFields]
  cases kind : s.kind with
  | task resource fields =>
    simp only [checkOptional_bind_eq_ok, Kind.Complete]
    refine and_congr_right fun _ => and_congr_right fun _ => ?_
    cases fields.heartbeatSeconds.nat? with
    | none => simp
    | some beat =>
      cases fields.timeoutSeconds.nat? with
      | none => simp
      | some limit =>
        by_cases late : limit ≤ beat
        · simp [late]
        · simpa [late] using Nat.lt_of_not_le late
  | wait fields =>
    by_cases given : fields.given.length = 1
    · simp [given, Kind.Complete, discard_checkOptional_eq_ok]
    · simp [given, Kind.Complete]
  | choice rules tails => exact absurd (by rw [kind]; rfl) other
  | parallel fields branches => cases branches <;> simp [Kind.Complete]
  | map fields iterator =>
    cases iterator <;> simp [Kind.Complete, discard_checkOptional_eq_ok]
  | pass | succeed | fail | plain | unbound => simp [Kind.Complete]

/-- Checking a state finds out whether it is complete. -/
theorem validate_eq_ok : s.validate = .ok () ↔ s.Complete := by
  by_cases choice : s.type? = some .choice
  · rw [type?] at choice
    rw [validate]
    cases kind : s.kind with
    | choice rules tails =>
      have exempt : s.Complete ↔ rules ≠ [] := by
        constructor
        · intro complete
          simpa [kind, Kind.Complete] using complete.kind
        · intro given
          exact ⟨fun other => absurd (by rw [type?, kind]; rfl) other, by rwa [kind]⟩
      rw [exempt]
      cases rules <;> simp
    | _ => simp [kind, Kind.type?] at choice
  · have checks : s.validate = (s.checkExit >>= fun _ => s.checkFields) := by
      rw [type?] at choice
      rw [validate]
      cases kind : s.kind with
      | choice rules tails => exact absurd (by rw [kind]; rfl) choice
      | _ => rfl
    rw [checks, Outcome.bind_eq_ok]
    constructor
    · rintro ⟨_, exit, fields⟩
      exact ⟨fun _ => checkExit_eq_ok.mp exit, (checkFields_eq_ok choice).mp fields⟩
    · rintro ⟨exit, fields⟩
      exact ⟨(), checkExit_eq_ok.mpr (exit choice), (checkFields_eq_ok choice).mpr fields⟩

end State
end Workflow
