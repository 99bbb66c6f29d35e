import Mathlib.Data.List.Forall2

/-!
Outcomes of computations that may be refused: what a sequence of steps comes to, and what the steps
of a list come to when they are taken one after the other. The results of such steps are related to
the items of the list one by one.
-/

namespace Workflow.Outcome

variable {ε α β : Type}

/-- What a computation comes to, whatever it leaves. -/
def of {σ : Type} : EStateM.Result ε σ α → Except ε α
  | .ok a _ => .ok a
  | .error fault _ => .error fault

theorem bind_eq_ok {first : Except ε α} {next : α → Except ε β} {b : β} :
    (first >>= next) = .ok b ↔ ∃ a, first = .ok a ∧ next a = .ok b := by
  cases first with
  | error fault => simp [bind, Except.bind]
  | ok a => simp [bind, Except.bind]

theorem bind_eq_error {first : Except ε α} {next : α → Except ε β} {fault : ε} :
    (first >>= next) = .error fault ↔
      first = .error fault ∨ ∃ a, first = .ok a ∧ next a = .error fault := by
  cases first with
  | error other => simp [bind, Except.bind]
  | ok a => simp [bind, Except.bind]

theorem forM_eq_ok {f : α → Except ε Unit} {items : List α} :
    items.forM f = .ok () ↔ ∀ a ∈ items, f a = .ok () := by
  induction items with
  | nil => simp [List.forM, pure, Except.pure]
  | cons a items ih =>
    rw [List.forM, bind_eq_ok, List.forall_mem_cons, ← ih]
    exact ⟨fun ⟨(), first, rest⟩ => ⟨first, rest⟩, fun ⟨first, rest⟩ => ⟨(), first, rest⟩⟩

theorem exists_of_forM_eq_error {f : α → Except ε Unit} {items : List α} {fault : ε}
    (refused : items.forM f = .error fault) : ∃ a ∈ items, f a = .error fault := by
  induction items with
  | nil => cases refused
  | cons a items ih =>
    rw [List.forM, bind_eq_error] at refused
    rcases refused with here | ⟨_, _, later⟩
    · exact ⟨a, List.mem_cons_self, here⟩
    · obtain ⟨b, member, refused⟩ := ih later
      exact ⟨b, List.mem_cons_of_mem _ member, refused⟩

theorem mapM_eq_ok {f : α → Except ε β} {items : List α} {results : List β} :
    items.mapM f = .ok results ↔ List.Forall₂ (fun a b => f a = .ok b) items results := by
  induction items generalizing results with
  | nil => simp [pure, Except.pure, eq_comm]
  | cons a items ih =>
    simp only [List.mapM_cons, bind_eq_ok, pure, Except.pure, Except.ok.injEq]
    constructor
    · rintro ⟨b, first, rest, later, rfl⟩
      exact .cons first (ih.mp later)
    · rintro (_ | ⟨first, later⟩)
      exact ⟨_, first, _, ih.mpr later, rfl⟩

/-- Steps that all succeed yield what each of them yields. -/
theorem mapM_eq_map {f : α → Except ε β} {g : α → β} {items : List α}
    (each : ∀ a ∈ items, f a = .ok (g a)) : items.mapM f = .ok (items.map g) := by
  rw [mapM_eq_ok, List.forall₂_map_right_iff, List.forall₂_same]
  exact each

section Related

variable {R : α → β → Prop} {xs : List α} {ys : List β}

theorem getElem?_of_forall₂ (related : List.Forall₂ R xs ys) {i : Nat} {x : α}
    (at_i : xs[i]? = some x) : ∃ y, ys[i]? = some y ∧ R x y := by
  obtain ⟨inside, rfl⟩ := List.getElem?_eq_some_iff.mp at_i
  have inside' : i < ys.length := related.length_eq ▸ inside
  exact ⟨ys[i], List.getElem?_eq_getElem inside', related.get inside inside'⟩

theorem exists_of_forall₂ (related : List.Forall₂ R xs ys) {x : α} (member : x ∈ xs) :
    ∃ y ∈ ys, R x y := by
  obtain ⟨i, at_i⟩ := List.getElem?_of_mem member
  obtain ⟨y, at_i', relates⟩ := getElem?_of_forall₂ related at_i
  exact ⟨y, List.mem_of_getElem? at_i', relates⟩

theorem exists_of_forall₂_right (related : List.Forall₂ R xs ys) {y : β} (member : y ∈ ys) :
    ∃ x ∈ xs, R x y := by
  have flipped : List.Forall₂ (flip R) ys xs := related.flip
  exact exists_of_forall₂ flipped member

theorem map_eq_of_forall₂ {γ : Type} {f : α → γ} {g : β → γ} (related : List.Forall₂ R xs ys)
    (same : ∀ x y, R x y → f x = g y) : xs.map f = ys.map g := by
  induction related with
  | nil => rfl
  | cons relates _ ih => rw [List.map_cons, List.map_cons, same _ _ relates, ih]

/-- What can be done for each of some items, one by one, can be done for all of them. -/
theorem exists_results {γ δ : Type} {S : α → γ → Prop} {T : β → δ → Prop} {Q : γ → δ → Prop}
    {zs : List γ} (related : List.Forall₂ R xs ys) (results : List.Forall₂ S xs zs)
    (each : ∀ x y z, R x y → S x z → ∃ u, T y u ∧ Q z u) :
    ∃ us, List.Forall₂ T ys us ∧ List.Forall₂ Q zs us := by
  induction related generalizing zs with
  | nil =>
    cases results
    exact ⟨[], .nil, .nil⟩
  | cons relates _ ih =>
    cases results with
    | cons result results =>
      obtain ⟨u, here, same⟩ := each _ _ _ relates result
      obtain ⟨us, later, rest⟩ := ih results
      exact ⟨u :: us, .cons here later, .cons same rest⟩

end Related

end Workflow.Outcome
