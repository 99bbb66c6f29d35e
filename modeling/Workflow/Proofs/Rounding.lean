import Mathlib.Algebra.Order.Ring.Nat
import Mathlib.Tactic.Ring
import Workflow.Number.Shortest

/-!
Reading back. Which rank is nearest to a quotient depends on its value alone, so that a decimal is
read alike however its digits and its exponent share the powers of ten. A decimal of which a
magnitude is the nearest is not so small or so large that its point alone decides how it is read.
The shortest decimal of a magnitude was tried before it was taken, or is the exact one, and so is
read as that magnitude.
-/

namespace Workflow

namespace Binary64

theorem nearestRank_mul {scale : Nat} (positive : 0 < scale) (units parts : Nat) :
    nearestRank (units * scale) (parts * scale) = nearestRank units parts := by
  unfold nearestRank
  rw [Nat.mul_div_mul_right units parts positive]
  generalize Nat.log2 (units / parts) - 52 = shift
  have step : parts * scale * Nat.pow 2 shift = parts * Nat.pow 2 shift * scale :=
    Nat.mul_right_comm ..
  dsimp only
  rw [step]
  generalize parts * Nat.pow 2 shift = step
  have less : 2 * (units % step * scale) < step * scale ↔ 2 * (units % step) < step := by
    rw [← Nat.mul_assoc, Nat.mul_lt_mul_right positive]
  have same : 2 * (units % step * scale) = step * scale ↔ 2 * (units % step) = step := by
    rw [← Nat.mul_assoc, Nat.mul_left_inj positive.ne']
  rw [Nat.mul_div_mul_right units step positive, Nat.mul_mod_mul_right]
  simp only [less, same]

/-- Equal quotients have the same nearest rank. -/
theorem nearestRank_congr {units parts units' parts' : Nat} (positive : 0 < parts)
    (positive' : 0 < parts') (same : units * parts' = units' * parts) :
    nearestRank units parts = nearestRank units' parts' := by
  rw [← nearestRank_mul positive' units parts, same, Nat.mul_comm parts parts',
    nearestRank_mul positive]

theorem nearestRank_of_small {units parts : Nat} (small : 2 * units < parts) :
    nearestRank units parts = 0 := by
  have below : units < parts := by omega
  have step : parts * Nat.pow 2 (Nat.log2 0 - 52) = parts := Nat.mul_one parts
  simp only [nearestRank, Nat.div_eq_of_lt below, step, Nat.mod_eq_of_lt below, small, true_or,
    if_true, Nat.add_zero]
  rw [Nat.log2_zero, Nat.zero_sub, Nat.zero_mul]

/-- A quotient of at least `2 ^ (52 + n)` units lies above the lowest `n` binades. -/
theorem le_nearestRank {units parts n : Nat} (positive : 0 < parts)
    (large : parts * 2 ^ (52 + n) ≤ units) : n * binade ≤ nearestRank units parts := by
  have quotient : 2 ^ (52 + n) ≤ units / parts :=
    (Nat.le_div_iff_mul_le positive).mpr (Nat.mul_comm parts _ ▸ large)
  have some : units / parts ≠ 0 := (Nat.lt_of_lt_of_le (Nat.two_pow_pos _) quotient).ne'
  have shift : 52 + n ≤ Nat.log2 (units / parts) := (Nat.le_log2 some).mpr quotient
  refine Nat.le_trans (Nat.mul_le_mul_right binade ?_) (Nat.le_add_right _ _)
  omega

theorem binade_eq : binade = 2 ^ 52 := rfl

/-- The significand and the shift of a magnitude that is a whole number of units. -/
theorem nearestRank_of_shift {significand shift : Nat}
    (least : binade ≤ significand ∨ shift = 0) (most : significand < 2 * binade) :
    nearestRank (significand * 2 ^ shift) 1 = shift * binade + significand := by
  have size : Nat.log2 (significand * 2 ^ shift) - 52 = shift := by
    rw [binade_eq] at least most
    by_cases low : significand < 2 ^ 52
    · obtain rfl : shift = 0 := least.resolve_left (Nat.not_le.mpr low)
      rcases Nat.eq_zero_or_pos significand with rfl | positive
      · rfl
      · have := (Nat.log2_lt positive.ne').mpr low
        rw [Nat.pow_zero, Nat.mul_one]
        omega
    · have positive : significand * 2 ^ shift ≠ 0 :=
        Nat.mul_ne_zero (by omega) (Nat.two_pow_pos shift).ne'
      have exponent : Nat.log2 (significand * 2 ^ shift) = 52 + shift := by
        refine (Nat.log2_eq_iff positive).mpr ⟨?_, ?_⟩
        · rw [Nat.pow_add]
          exact Nat.mul_le_mul_right _ (Nat.le_of_not_lt low)
        · rw [Nat.add_right_comm, Nat.pow_add, Nat.pow_succ', Nat.mul_lt_mul_right]
          · exact most
          · exact Nat.two_pow_pos shift
      omega
  have step : 1 * Nat.pow 2 shift = 2 ^ shift := Nat.one_mul _
  have positive := Nat.two_pow_pos shift
  simp only [nearestRank, Nat.div_one, size, step, Nat.mul_div_cancel _ positive,
    Nat.mul_mod_left, Nat.mul_zero, positive, true_or, if_true]

theorem nearestRank_units (rank : Nat) : nearestRank (units rank) 1 = rank := by
  have positive : 0 < binade := Nat.two_pow_pos 52
  rw [units]
  split
  case isTrue low =>
    simpa using @nearestRank_of_shift rank 0 (.inr rfl) (by omega)
  case isFalse high =>
    have part := Nat.mod_lt rank positive
    have whole : 1 ≤ rank / binade := (Nat.le_div_iff_mul_le positive).mpr (by omega)
    refine (nearestRank_of_shift (.inl (Nat.le_add_right _ _)) (by omega)).trans ?_
    rw [← Nat.add_assoc, ← Nat.succ_mul, Nat.succ_eq_add_one, Nat.sub_add_cancel whole,
      Nat.div_add_mod']

end Binary64

namespace Decimal

open Binary64 (nearestRank units one binade magnitudes)

/-- The same number with zeros at the end of its digits. -/
def shift (d : Decimal) (k : Nat) : Decimal := ⟨d.digits * 10 ^ k, d.exponent - k⟩

theorem toDigits_shift {n : Nat} (positive : 0 < n) (k : Nat) :
    Nat.toDigits 10 (n * 10 ^ k) = Nat.toDigits 10 n ++ List.replicate k '0' := by
  induction k with
  | zero => simp
  | succ k ih =>
    have more := Nat.toDigits_append_toDigits (b := 10) (n := n * 10 ^ k) (d := 0) (by decide)
      (Nat.mul_pos positive (Nat.pow_pos (by decide))) (by decide)
    rw [Nat.pow_succ', Nat.mul_left_comm, List.replicate_succ', ← List.append_assoc, ← ih]
    exact more.symm

theorem point_shift {d : Decimal} (positive : 0 < d.digits) (k : Nat) :
    (d.shift k).point = d.point := by
  simp only [point, shift, toDigits_shift positive, List.length_append, List.length_replicate]
  omega

theorem nearestRank_shift (d : Decimal) (k : Nat) :
    nearestRank (d.shift k).inUnits.1 (d.shift k).inUnits.2 =
      nearestRank d.inUnits.1 d.inUnits.2 := by
  have tens (n : Nat) : 0 < Nat.pow 10 n := Nat.pow_pos (by decide)
  refine Binary64.nearestRank_congr (tens _) (tens _) ?_
  simp only [inUnits, shift, Nat.pow_eq]
  have powers : 10 ^ k * 10 ^ (d.exponent - k).toNat * 10 ^ (-d.exponent).toNat =
      10 ^ d.exponent.toNat * 10 ^ (-(d.exponent - k)).toNat := by
    simp only [← Nat.pow_add]
    congr 1
    omega
  generalize one = one
  calc
    _ = d.digits * one *
        (10 ^ k * 10 ^ (d.exponent - k).toNat * 10 ^ (-d.exponent).toNat) := by ring
    _ = _ := by rw [powers]; ring

/-- Zeros at the end of the digits do not change how a decimal is read. -/
theorem toBinary64_shift (negative : Bool) (d : Decimal) (k : Nat) :
    (d.shift k).toBinary64 negative = d.toBinary64 negative := by
  have zero : (d.shift k).digits = 0 ↔ d.digits = 0 := by simp [shift]
  rcases Nat.eq_zero_or_pos d.digits with none | positive
  · simp only [toBinary64, zero, none, true_or, if_true]
  · simp only [toBinary64, zero, point_shift positive, nearestRank_shift]

section Shortest

variable {rank : Nat}

theorem readsAs_exact (rank : Nat) : readsAs rank (exact rank) = true := by
  have tens : Nat.pow 5 1074 * one = Nat.pow 10 1074 := by decide +kernel
  have digits : exact rank = ⟨units rank * Nat.pow 5 1074, -(1074 : Nat)⟩ := rfl
  generalize 1074 = places at tens digits
  refine beq_iff_eq.mpr (Eq.trans ?_ (Binary64.nearestRank_units rank))
  refine Binary64.nearestRank_congr (Nat.pow_pos (by decide)) Nat.one_pos ?_
  simp only [digits, inUnits, Int.toNat_neg_natCast, Int.neg_neg, Int.toNat_natCast, Nat.pow_eq,
    Nat.pow_zero, Nat.mul_one] at tens ⊢
  rw [← tens, Nat.mul_assoc]

theorem readsAs_shortest (positive : 0 < rank) : readsAs rank (shortest rank) = true := by
  rw [shortest, if_neg positive.ne']
  dsimp only
  cases found : (List.range 17).findSome? _ with
  | none => exact readsAs_exact rank
  | some d =>
    obtain ⟨n, -, taken⟩ := List.exists_of_findSome?_eq_some found
    exact List.find?_some taken

/-- The point of a decimal that is not rounded to zero. -/
theorem least_point {d : Decimal} (some : 0 < nearestRank d.inUnits.1 d.inUnits.2) :
    -400 ≤ d.point := by
  by_contra low
  have digits : d.digits < 10 ^ (Nat.toDigits 10 d.digits).length :=
    (Nat.length_toDigits_le_iff (by decide) Nat.length_toDigits_pos).mp (Nat.le_refl _)
  unfold point at low
  obtain ⟨k, bound, scale⟩ : ∃ k, k = 401 ∧ 2 * one ≤ 10 ^ k := ⟨401, rfl, by decide +kernel⟩
  have whole : d.exponent.toNat = 0 := by omega
  have small : 2 * d.inUnits.1 < d.inUnits.2 := by
    simp only [inUnits, whole, Nat.pow_eq, Nat.pow_zero, Nat.mul_one]
    generalize one = one at scale
    calc
      2 * (d.digits * one) = d.digits * (2 * one) := Nat.mul_left_comm ..
      _ ≤ d.digits * 10 ^ k := Nat.mul_le_mul_left _ scale
      _ < 10 ^ (Nat.toDigits 10 d.digits).length * 10 ^ k :=
        Nat.mul_lt_mul_of_pos_right digits (Nat.pow_pos (by decide))
      _ = 10 ^ ((Nat.toDigits 10 d.digits).length + k) := (Nat.pow_add ..).symm
      _ ≤ 10 ^ (-d.exponent).toNat := Nat.pow_le_pow_right (by decide) (by omega)
  rw [Binary64.nearestRank_of_small small] at some
  exact Nat.lt_irrefl 0 some

/-- The point of a decimal that is not rounded beyond the magnitudes. -/
theorem point_le {d : Decimal} (positive : 0 < d.digits)
    (within : nearestRank d.inUnits.1 d.inUnits.2 < magnitudes) : d.point ≤ 400 := by
  by_contra high
  obtain ⟨more, size⟩ : ∃ more, (Nat.toDigits 10 d.digits).length = more + 1 :=
    ⟨_, (Nat.sub_add_cancel Nat.length_toDigits_pos).symm⟩
  have digits : 10 ^ more ≤ d.digits := by
    rcases Nat.eq_zero_or_pos more with rfl | several
    · exact positive
    · refine Nat.le_of_not_lt fun less => ?_
      have := (Nat.length_toDigits_le_iff (by decide) several).mpr less
      omega
  rw [point, size] at high
  obtain ⟨k, n, bound, count, scale⟩ :
      ∃ k n, k = 400 ∧ n = 2047 ∧ 2 ^ (52 + n) ≤ 10 ^ k * one :=
    ⟨400, 2047, rfl, rfl, by decide +kernel⟩
  have large : Nat.pow 10 (-d.exponent).toNat * 2 ^ (52 + n) ≤ d.inUnits.1 := by
    simp only [inUnits, Nat.pow_eq]
    generalize one = one at scale
    calc
      10 ^ (-d.exponent).toNat * 2 ^ (52 + n) ≤ 10 ^ (-d.exponent).toNat * (10 ^ k * one) :=
        Nat.mul_le_mul_left _ scale
      _ = 10 ^ ((-d.exponent).toNat + k) * one := by rw [Nat.pow_add, Nat.mul_assoc]
      _ ≤ 10 ^ (more + d.exponent.toNat) * one :=
        Nat.mul_le_mul_right _ (Nat.pow_le_pow_right (by decide) (by omega))
      _ = 10 ^ more * 10 ^ d.exponent.toNat * one := by rw [Nat.pow_add]
      _ ≤ d.digits * 10 ^ d.exponent.toNat * one :=
        Nat.mul_le_mul_right _ (Nat.mul_le_mul_right _ digits)
  have beyond := Binary64.le_nearestRank (Nat.pow_pos (by decide)) large
  rw [count] at beyond
  exact Nat.not_le.mpr within beyond

/-- The shortest decimal of a finite value is read as the value. -/
theorem toBinary64_shortest (negative : Bool) (rank : Fin magnitudes) :
    (shortest rank.val).toBinary64 negative = .finite negative rank := by
  rcases Nat.eq_zero_or_pos rank.val with none | some
  · have zero : rank = ⟨0, by decide⟩ := Fin.ext none
    rw [zero]
    rfl
  · have read := readsAs_shortest some
    generalize shortest rank.val = d at read
    replace read : nearestRank d.inUnits.1 d.inUnits.2 = rank.val := beq_iff_eq.mp read
    have positive : 0 < d.digits := by
      refine Nat.pos_of_ne_zero fun zero => ?_
      have nothing : 2 * d.inUnits.1 < d.inUnits.2 := by
        simp only [inUnits, zero, Nat.zero_mul, Nat.mul_zero]
        exact Nat.pow_pos (by decide)
      rw [Binary64.nearestRank_of_small nothing] at read
      omega
    have low := least_point (d := d) (by omega)
    have high := point_le positive (by omega)
    rw [toBinary64, if_neg (by omega), if_neg (by omega), read, Binary64.ofRank, dif_pos rank.isLt]

end Shortest

end Decimal
end Workflow
