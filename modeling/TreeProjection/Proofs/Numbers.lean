import Mathlib.Order.Monotone.Basic
import Mathlib.Tactic.Common
import TreeProjection.Binary64

/-!
# The numbers that doubles stand for

A double that is no NaN stands for a number, infinity being one above all others. Distinct
magnitudes stand for distinct absolute values (`scaled_strictMono`), so two doubles stand for one
number only if they have the same bits or are the two zeros. That is what `ieeeEq` asks
(`ieeeEq_iff_number?`).
-/

namespace TreeProjection.Binary64

/-- The number that a double stands for, as a multiple of `2 ^ -1074`. -/
def number? (x : Binary64) : Option Int :=
  if x.isNaN then none
  else some (if x.isNegative then -(scaled x.magnitude : Int) else scaled x.magnitude)

theorem exponentWeight_pos : 0 < exponentWeight := by decide

section Parts

variable {exponent fraction : Nat} (hfraction : fraction < exponentWeight)
include hfraction

theorem weight_div : (exponentWeight * exponent + fraction) / exponentWeight = exponent := by
  rw [Nat.mul_add_div exponentWeight_pos, Nat.div_eq_of_lt hfraction, Nat.add_zero]

theorem scaled_eq : scaled (exponentWeight * exponent + fraction) =
    if exponent = 0 then fraction
    else (exponentWeight + fraction) * Nat.pow 2 (exponent - 1) := by
  have hrest : (exponentWeight * exponent + fraction) % exponentWeight = fraction := by
    rw [Nat.mul_add_mod, Nat.mod_eq_of_lt hfraction]
  rw [scaled, weight_div hfraction, hrest]

end Parts

theorem exists_parts (magnitude : Nat) : ∃ exponent fraction, fraction < exponentWeight ∧
    magnitude = exponentWeight * exponent + fraction :=
  ⟨_, _, Nat.mod_lt magnitude exponentWeight_pos, (Nat.div_add_mod ..).symm⟩

/-- The distance to the next double, as a multiple of `2 ^ -1074`. -/
def spacing (magnitude : Nat) : Nat := Nat.pow 2 (magnitude / exponentWeight - 1)

theorem spacing_pos (magnitude : Nat) : 0 < spacing magnitude := Nat.two_pow_pos _

theorem scaled_succ (magnitude : Nat) :
    scaled (magnitude + 1) = scaled magnitude + spacing magnitude := by
  obtain ⟨exponent, fraction, hfraction, rfl⟩ := exists_parts magnitude
  rw [scaled_eq hfraction, spacing, weight_div hfraction]
  rcases Nat.lt_or_ge (fraction + 1) exponentWeight with hsame | hnext
  · rw [Nat.add_assoc, scaled_eq hsame]
    split
    · rename_i hzero
      rw [hzero]
    · rw [← Nat.add_assoc, Nat.succ_mul]
  · -- The fraction is used up, and the exponent grows.
    have hcarry : exponentWeight * exponent + fraction + 1 =
        exponentWeight * (exponent + 1) + 0 := by
      rw [Nat.mul_add]
      omega
    rw [hcarry, scaled_eq exponentWeight_pos, if_neg (Nat.succ_ne_zero _), Nat.add_sub_cancel,
      Nat.add_zero]
    cases exponent with
    | zero =>
        have hlast : fraction + 1 = exponentWeight := Nat.le_antisymm hfraction hnext
        rw [if_pos rfl, ← hlast]
        exact Nat.mul_one _
    | succ exponent =>
        have hlast : exponentWeight + fraction + 1 = exponentWeight * 2 := by omega
        rw [if_neg (Nat.succ_ne_zero _), Nat.add_sub_cancel, ← Nat.succ_mul, Nat.succ_eq_add_one,
          hlast, Nat.mul_assoc, Nat.mul_comm 2]
        rfl

theorem scaled_lt_succ (magnitude : Nat) : scaled magnitude < scaled (magnitude + 1) := by
  rw [scaled_succ]
  exact Nat.lt_add_of_pos_right (spacing_pos magnitude)

theorem scaled_lt_mul_spacing (magnitude : Nat) :
    scaled magnitude < 2 * exponentWeight * spacing magnitude := by
  obtain ⟨exponent, fraction, hfraction, rfl⟩ := exists_parts magnitude
  rw [scaled_eq hfraction, spacing, weight_div hfraction]
  split
  · rename_i hzero
    rw [hzero]
    change fraction < 2 * exponentWeight * 1
    omega
  · exact Nat.mul_lt_mul_of_pos_right (by omega) (Nat.two_pow_pos _)

/-- The doubles next to a double lie apart by more than its `2 * 10 ^ -16`th part. -/
theorem two_mul_scaled_lt (magnitude : Nat) : 2 * scaled (magnitude + 1) <
    10000000000000000 * (spacing magnitude + spacing (magnitude + 1)) := by
  obtain ⟨exponent, fraction, hfraction, hparts⟩ := exists_parts (magnitude + 1)
  have hweight : exponentWeight = 0x10000000000000 := rfl
  cases fraction with
  | zero =>
      -- The double below is nearer than the one above, which alone is far enough here.
      have hexponent : exponent ≠ 0 := by
        rintro rfl
        exact Nat.succ_ne_zero magnitude hparts
      have hspacing : spacing (magnitude + 1) = Nat.pow 2 (exponent - 1) := by
        rw [spacing, hparts, weight_div hfraction]
      have hscaled : scaled (magnitude + 1) = 0x10000000000000 * spacing (magnitude + 1) := by
        rw [hspacing, hparts, scaled_eq hfraction, if_neg hexponent, Nat.add_zero, hweight]
      have hpositive := spacing_pos (magnitude + 1)
      omega
  | succ fraction =>
      have hbelow : magnitude = exponentWeight * exponent + fraction := by omega
      have hsame : spacing magnitude = spacing (magnitude + 1) := by
        rw [spacing, spacing, hparts, hbelow, weight_div hfraction,
          weight_div (Nat.lt_of_succ_lt hfraction)]
      have hscaled := scaled_lt_mul_spacing (magnitude + 1)
      rw [Nat.mul_assoc, hweight] at hscaled
      omega

theorem scaled_strictMono : StrictMono scaled := strictMono_nat_of_lt_succ scaled_lt_succ

theorem scaled_eq_zero_iff {magnitude : Nat} : scaled magnitude = 0 ↔ magnitude = 0 :=
  scaled_strictMono.injective.eq_iff (a := magnitude) (b := 0)

theorem scaled_pos {magnitude : Nat} (hmagnitude : magnitude ≠ 0) : 0 < scaled magnitude :=
  Nat.pos_of_ne_zero (mt scaled_eq_zero_iff.mp hmagnitude)

/-- A double is its sign and its magnitude. -/
theorem eq_of_magnitude_eq {x y : Binary64} (hmagnitude : x.magnitude = y.magnitude)
    (hsign : x.isNegative = y.isNegative) : x = y := by
  obtain ⟨x⟩ := x
  obtain ⟨y⟩ := y
  have hx := x.toNat_lt
  have hy := y.toNat_lt
  rw [isNegative, isNegative, decide_eq_decide] at hsign
  simp only [magnitude, signWeight] at hmagnitude hsign
  congr 1
  apply UInt64.toNat_inj.mp
  omega

/-- IEEE equality is equality of numbers: the zeros are one number, and a NaN is none. -/
theorem ieeeEq_iff_number? (x y : Binary64) :
    x.ieeeEq y = true ↔ ∃ number, x.number? = some number ∧ y.number? = some number := by
  by_cases hx : x.isNaN = true
  · simp [ieeeEq, number?, hx]
  by_cases hy : y.isNaN = true
  · simp [ieeeEq, number?, hy]
  have hsame : (∃ number, x.number? = some number ∧ y.number? = some number) ↔
      x.number? = y.number? := by
    constructor
    · rintro ⟨number, hnumber, hother⟩
      rw [hnumber, hother]
    · intro heq
      exact ⟨_, if_neg hx, heq ▸ if_neg hx⟩
  have hzeros : x.ieeeEq y = true ↔ x = y ∨ x.magnitude = 0 ∧ y.magnitude = 0 := by
    simp [ieeeEq, hx, hy]
  rw [hsame, hzeros, number?, number?, if_neg hx, if_neg hy, Option.some_inj]
  constructor
  · rintro (rfl | ⟨hzero, hother⟩)
    · rfl
    · have hscaled : scaled 0 = 0 := rfl
      simp [hzero, hother, hscaled]
  · intro hnumber
    by_cases hsign : x.isNegative = y.isNegative
    · have hscaled : scaled x.magnitude = scaled y.magnitude := by
        rw [hsign] at hnumber
        split at hnumber <;> omega
      exact Or.inl (eq_of_magnitude_eq (scaled_strictMono.injective hscaled) hsign)
    · -- Numbers of opposite signs are equal only if both are zero.
      have hzeros : scaled x.magnitude = 0 ∧ scaled y.magnitude = 0 := by
        cases hnegative : x.isNegative <;> cases hother : y.isNegative <;>
          simp only [hnegative, hother, not_true_eq_false] at hnumber hsign
        all_goals
          simp only [Bool.false_eq_true, if_false, if_true] at hnumber
          omega
      exact Or.inr ⟨scaled_eq_zero_iff.mp hzeros.1, scaled_eq_zero_iff.mp hzeros.2⟩

end TreeProjection.Binary64
