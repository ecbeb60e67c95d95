import Mathlib.Algebra.Order.Field.Power
import Mathlib.Data.List.TakeWhile
import Mathlib.Data.Rat.Cast.Order
import Mathlib.Tactic.FieldSimp
import Mathlib.Tactic.GCongr
import Mathlib.Tactic.Linarith
import Mathlib.Tactic.Positivity
import Mathlib.Tactic.Ring
import TreeProjection.Binary64.Decimal
import TreeProjection.Proofs.Numbers

/-!
# The shortest decimal of a double

A number rounds to a double if no other double is as near (`RoundsTo`): it lies between the middles
to the two neighbours (`roundsTo_iff_spans`). `Binary64.shortest` tries the numbers with one digit,
with two and so on, by multiples of a step (`multiple?_cases`). With seventeen digits the step is
narrower than the neighbourhood, so the search ends (`lower_add_stepOf_lt`). It ends with a decimal
that rounds to the double, with the fewest digits possible, and the nearest of these
(`isShortest_shortest`).

All is counted in units of the grid, `10 ^ -400 * 2 ^ -1075`, in which every double and every middle
is a whole number.
-/

namespace TreeProjection

/-- `0.d₁d₂… * 10 ^ point` as a number. -/
def Decimal.number (decimal : Decimal) : ℚ :=
  Nat.ofDigitChars 10 decimal.digits 0 * 10 ^ (decimal.point - decimal.digits.length)

namespace Binary64

/-- The absolute value that a magnitude stands for. -/
def absolute (magnitude : Nat) : ℚ := scaled magnitude / 2 ^ 1074

theorem absolute_zero : absolute 0 = 0 := by simp [absolute, scaled]

theorem absolute_pos {magnitude : Nat} (hmagnitude : magnitude ≠ 0) : 0 < absolute magnitude := by
  have hscaled := scaled_pos hmagnitude
  rw [absolute]
  positivity

/-- No other magnitude is as near to the number; at the same distance, the even one counts. -/
def RoundsTo (number : ℚ) (magnitude : Nat) : Prop :=
  ∀ other, other ≠ magnitude →
    |number - absolute magnitude| < |number - absolute other| ∨
      |number - absolute magnitude| = |number - absolute other| ∧ magnitude % 2 = 0

/-- The number is written with at most so many digits, apart from zeros in front and behind. -/
def FitsDigits (count : Nat) (number : ℚ) : Prop :=
  ∃ (n : Nat) (exponent : Int), (Nat.toDigits 10 n).length ≤ count ∧ number = n * 10 ^ exponent

/-- Of the numbers that round to a magnitude, none has fewer digits, and none with as few lies
nearer. -/
structure IsShortest (number : ℚ) (magnitude : Nat) : Prop where
  rounds : RoundsTo number magnitude
  fewest {other : ℚ} {count : Nat} (hother : RoundsTo other magnitude)
    (hfits : FitsDigits count other) : FitsDigits count number
  nearest {other : ℚ} {count : Nat} (hother : RoundsTo other magnitude)
    (hfits : FitsDigits count other) (hleast : ∀ fewer < count, ¬FitsDigits fewer number) :
    |number - absolute magnitude| ≤ |other - absolute magnitude|

/-! ### Neighbourhoods -/

/-- The power of two in the unit of the grid. It is not to be computed. -/
def binaryUnit : Nat := Nat.pow 2 1075

theorem binaryUnit_pos : 0 < binaryUnit := by decide +kernel

theorem binaryUnit_eq : (binaryUnit : ℚ) = 2 ^ 1074 * 2 := by
  have hhalf : binaryUnit = Nat.pow 2 1074 * 2 := by decide +kernel
  rw [hhalf]
  generalize 1074 = exponent
  rw [Nat.pow_eq, Nat.cast_mul, Nat.cast_pow, Nat.cast_ofNat]

attribute [irreducible] binaryUnit

/-- How many units of the grid make one. -/
def gridUnit : ℚ := 10 ^ gridExponent * binaryUnit

theorem gridUnit_pos : 0 < gridUnit := by
  have hbinary : (0 : ℚ) < binaryUnit := Nat.cast_pos.mpr binaryUnit_pos
  rw [gridUnit]
  positivity

theorem absolute_mul_gridUnit (magnitude : Nat) :
    absolute magnitude * gridUnit = (neighbourhood magnitude).centre := by
  have hne : (2 : ℚ) ^ 1074 ≠ 0 := by positivity
  rw [absolute, gridUnit, binaryUnit_eq, neighbourhood]
  generalize (2 : ℚ) ^ 1074 = weight at hne ⊢
  simp only [Nat.pow_eq]
  push_cast
  field_simp

namespace Neighbourhood

/-- A number of the grid's units lies in the neighbourhood. -/
def Spans (range : Neighbourhood) (number : ℚ) : Prop :=
  if range.closed then range.lower ≤ number ∧ number ≤ range.upper
  else range.lower < number ∧ number < range.upper

variable {range : Neighbourhood} {a b number : ℚ}

theorem holds_iff_spans {value : Nat} : range.holds value = true ↔ range.Spans value := by
  rw [holds, Spans]
  split <;> simp only [decide_eq_true_eq, Nat.cast_le, Nat.cast_lt]

theorem Spans.between (ha : range.Spans a) (hb : range.Spans b) (hlower : a ≤ number)
    (hupper : number ≤ b) : range.Spans number := by
  rw [Spans] at ha hb ⊢
  split at ha
  · rename_i hclosed
    rw [if_pos hclosed] at hb ⊢
    exact ⟨ha.1.trans hlower, hupper.trans hb.2⟩
  · rename_i hopen
    rw [if_neg hopen] at hb ⊢
    exact ⟨ha.1.trans_le hlower, hupper.trans_lt hb.2⟩

theorem spans_of_lt (hlower : range.lower < number) (hupper : number < range.upper) :
    range.Spans number := by
  rw [Spans]
  split
  · exact ⟨hlower.le, hupper.le⟩
  · exact ⟨hlower, hupper⟩

end Neighbourhood

/-! ### Rounding -/

/-- What a magnitude stands for, in units of the grid. -/
def onGrid (magnitude : Nat) : ℚ := (neighbourhood magnitude).centre

theorem natPow_pos (base exponent : Nat) (hbase : 0 < base) : 0 < Nat.pow base exponent :=
  Nat.pow_pos hbase

theorem grid_pos : 0 < Nat.pow 10 gridExponent := natPow_pos _ _ (by decide)

theorem onGrid_strictMono : StrictMono onGrid := by
  intro below above hlt
  have hscaled : scaled below < scaled above := scaled_strictMono hlt
  have hcentre : 2 * scaled below < 2 * scaled above := by omega
  exact Nat.cast_lt.mpr (Nat.mul_lt_mul_of_pos_right hcentre grid_pos)

theorem onGrid_lt_succ (magnitude : Nat) : onGrid magnitude < onGrid (magnitude + 1) :=
  onGrid_strictMono (Nat.lt_succ_self magnitude)

theorem two_mul_lower (magnitude : Nat) : 2 * ((neighbourhood (magnitude + 1)).lower : ℚ) =
    onGrid magnitude + onGrid (magnitude + 1) := by
  simp only [onGrid, neighbourhood, Nat.add_sub_cancel]
  push_cast
  ring

theorem two_mul_upper (magnitude : Nat) : 2 * ((neighbourhood magnitude).upper : ℚ) =
    onGrid magnitude + onGrid (magnitude + 1) := by
  simp only [onGrid, neighbourhood]
  push_cast
  ring

theorem abs_sub_mul_gridUnit (number : ℚ) (magnitude : Nat) :
    |number - absolute magnitude| * gridUnit = |number * gridUnit - onGrid magnitude| := by
  rw [onGrid, ← absolute_mul_gridUnit, ← sub_mul, abs_mul, abs_of_pos gridUnit_pos]

theorem abs_sub_lt_abs_sub_iff (x a b : ℚ) :
    |x - a| < |x - b| ↔ 0 < (a - b) * (2 * x - (a + b)) := by
  rw [← sq_lt_sq]
  constructor <;> intro h <;> nlinarith

theorem abs_sub_le_abs_sub_iff (x a b : ℚ) :
    |x - a| ≤ |x - b| ↔ 0 ≤ (a - b) * (2 * x - (a + b)) := by
  rw [← sq_le_sq]
  constructor <;> intro h <;> nlinarith

/-- Rounding, counted in units of the grid. -/
theorem roundsTo_iff (number : ℚ) (magnitude : Nat) : RoundsTo number magnitude ↔
    ∀ other, other ≠ magnitude →
      if magnitude % 2 = 0 then
        |number * gridUnit - onGrid magnitude| ≤ |number * gridUnit - onGrid other|
      else |number * gridUnit - onGrid magnitude| < |number * gridUnit - onGrid other| := by
  refine forall₂_congr fun other _ => ?_
  simp only [← abs_sub_mul_gridUnit, mul_le_mul_iff_of_pos_right gridUnit_pos,
    mul_lt_mul_iff_of_pos_right gridUnit_pos]
  split
  · rename_i heven
    simp only [heven, and_true, le_iff_lt_or_eq]
  · rename_i hodd
    simp only [hodd, and_false, or_false]

/-- What rounds to a magnitude other than zero lies in its neighbourhood. -/
theorem roundsTo_iff_spans (number : ℚ) (magnitude : Nat) : RoundsTo number (magnitude + 1) ↔
    (neighbourhood (magnitude + 1)).Spans (number * gridUnit) := by
  have hlower := two_mul_lower magnitude
  have hupper := two_mul_upper (magnitude + 1)
  have hbelow := onGrid_lt_succ magnitude
  have habove : onGrid (magnitude + 1) < onGrid (magnitude + 2) := onGrid_lt_succ (magnitude + 1)
  have hclosed : (neighbourhood (magnitude + 1)).closed = true ↔ (magnitude + 1) % 2 = 0 := by
    simp [neighbourhood]
  rw [roundsTo_iff, Neighbourhood.Spans]
  simp only [abs_sub_le_abs_sub_iff, abs_sub_lt_abs_sub_iff, hclosed]
  generalize number * gridUnit = x
  constructor
  · intro hrounds
    have hdown := hrounds magnitude (by omega)
    have hup := hrounds (magnitude + 2) (by omega)
    split at hdown
    · rename_i heven
      rw [if_pos heven] at hup ⊢
      constructor <;> nlinarith
    · rename_i hodd
      rw [if_neg hodd] at hup ⊢
      constructor <;> nlinarith
  · intro hspans other hother
    rcases Nat.lt_or_gt_of_ne hother with hlt | hgt
    · have hdown : onGrid other ≤ onGrid magnitude :=
        onGrid_strictMono.monotone (Nat.le_of_lt_succ hlt)
      split at hspans
      · rename_i heven
        rw [if_pos heven]
        apply mul_nonneg <;> linarith
      · rename_i hodd
        rw [if_neg hodd]
        apply mul_pos <;> linarith
    · have hup : onGrid (magnitude + 2) ≤ onGrid other := onGrid_strictMono.monotone hgt
      split at hspans
      · rename_i heven
        rw [if_pos heven]
        apply mul_nonneg_of_nonpos_of_nonpos <;> linarith
      · rename_i hodd
        rw [if_neg hodd]
        apply mul_pos_of_neg_of_neg <;> linarith

/-! ### Multiples of a step -/

namespace Neighbourhood

variable {range : Neighbourhood} {tie : Tie} {step multiple : Nat} {number : ℚ}

/-- The number does not lie between the two multiples next to the centre. -/
def Apart (range : Neighbourhood) (step : Nat) (number : ℚ) : Prop :=
  number ≤ ((range.centre / step * step : Nat) : ℚ) ∨
    (((range.centre / step + 1) * step : Nat) : ℚ) ≤ number

theorem below_le (range : Neighbourhood) (step : Nat) :
    ((range.centre / step * step : Nat) : ℚ) ≤ range.centre :=
  Nat.cast_le.mpr (Nat.div_mul_le_self _ _)

theorem le_above (range : Neighbourhood) (hstep : 0 < step) :
    (range.centre : ℚ) ≤ ((range.centre / step + 1) * step : Nat) := by
  apply Nat.cast_le.mpr
  exact (Nat.lt_mul_of_div_lt (Nat.lt_succ_self _) hstep).le

theorem apart_of_le (multiple : Nat) (hnumber : number ≤ (multiple * step : Nat))
    (hcentre : multiple * step ≤ range.centre) : range.Apart step number := by
  by_cases hstep : 0 < step
  · have hmultiple : multiple ≤ range.centre / step := (Nat.le_div_iff_mul_le hstep).mpr hcentre
    exact Or.inl (hnumber.trans (Nat.cast_le.mpr (Nat.mul_le_mul_right step hmultiple)))
  · have hzero : step = 0 := by omega
    rw [hzero, Nat.mul_zero] at hnumber
    exact Or.inl (by simpa [hzero] using hnumber)

theorem apart_multiple (range : Neighbourhood) (multiple step : Nat) :
    range.Apart step (multiple * step : Nat) := by
  rcases Nat.lt_or_ge (range.centre / step) multiple with habove | hbelow
  · exact Or.inr (Nat.cast_le.mpr (Nat.mul_le_mul_right step habove))
  · exact Or.inl (Nat.cast_le.mpr (Nat.mul_le_mul_right step hbelow))

/-- The nearest multiple on the side of the number lies in the neighbourhood if the number does. -/
theorem Apart.spans (hapart : range.Apart step number) (hstep : 0 < step)
    (hcentre : range.Spans range.centre) (hnumber : range.Spans number) :
    range.holds (range.centre / step * step) = true ∧
        |((range.centre / step * step : Nat) : ℚ) - range.centre| ≤ |number - range.centre| ∨
      range.holds ((range.centre / step + 1) * step) = true ∧
        |(((range.centre / step + 1) * step : Nat) : ℚ) - range.centre| ≤
          |number - range.centre| := by
  have hbelow := range.below_le step
  have habove := range.le_above hstep
  rcases hapart with hside | hside
  · refine Or.inl ⟨holds_iff_spans.mpr (hnumber.between hcentre hside hbelow), ?_⟩
    rw [abs_of_nonpos (sub_nonpos.mpr hbelow), abs_of_nonpos (sub_nonpos.mpr (hside.trans hbelow))]
    linarith
  · refine Or.inr ⟨holds_iff_spans.mpr (hcentre.between hnumber habove hside), ?_⟩
    rw [abs_of_nonneg (sub_nonneg.mpr habove), abs_of_nonneg (sub_nonneg.mpr (habove.trans hside))]
    linarith

theorem choose_eq (tie : Tie) (below : Nat) :
    tie.choose below = below ∨ tie.choose below = below + 1 := by
  cases tie with
  | toEven =>
      rw [Tie.choose]
      omega
  | away => exact Or.inr rfl

/-- The search finds one of the two multiples next to the centre, and the nearer one of two. -/
theorem multiple?_cases (range : Neighbourhood) (tie : Tie) (step : Nat) :
    (range.multiple? tie step = none ∧ range.holds (range.centre / step * step) = false ∧
        range.holds ((range.centre / step + 1) * step) = false) ∨
      (range.multiple? tie step = some (range.centre / step) ∧
        range.holds (range.centre / step * step) = true ∧
        (range.holds ((range.centre / step + 1) * step) = true →
          range.centre - range.centre / step * step ≤
            (range.centre / step + 1) * step - range.centre)) ∨
      (range.multiple? tie step = some (range.centre / step + 1) ∧
        range.holds ((range.centre / step + 1) * step) = true ∧
        (range.holds (range.centre / step * step) = true →
          (range.centre / step + 1) * step - range.centre ≤
            range.centre - range.centre / step * step)) := by
  rw [multiple?]
  dsimp only
  cases hbelow : range.holds (range.centre / step * step) <;>
    cases habove : range.holds ((range.centre / step + 1) * step)
  · exact Or.inl ⟨rfl, rfl, rfl⟩
  · exact Or.inr (Or.inr ⟨rfl, rfl, nofun⟩)
  · exact Or.inr (Or.inl ⟨rfl, rfl, nofun⟩)
  · dsimp only
    split
    · rename_i hnearer
      exact Or.inr (Or.inl ⟨rfl, rfl, fun _ => hnearer.le⟩)
    · rename_i hbelow
      split
      · rename_i hnearer
        exact Or.inr (Or.inr ⟨rfl, rfl, fun _ => hnearer.le⟩)
      · rename_i habove
        -- Both are equally near.
        rcases choose_eq tie (range.centre / step) with hchoice | hchoice
        · exact Or.inr (Or.inl ⟨congrArg some hchoice, rfl, fun _ => Nat.le_of_not_lt habove⟩)
        · exact Or.inr (Or.inr ⟨congrArg some hchoice, rfl, fun _ => Nat.le_of_not_lt hbelow⟩)

section Search

variable (hstep : 0 < step) (hcentre : range.Spans range.centre)
include hstep hcentre

theorem not_spans_of_multiple?_eq_none (hnone : range.multiple? tie step = none)
    (hapart : range.Apart step number) : ¬range.Spans number := by
  intro hnumber
  rcases range.multiple?_cases tie step with ⟨-, hbelow, habove⟩ | ⟨hsome, -⟩ | ⟨hsome, -⟩
  · rcases hapart.spans hstep hcentre hnumber with ⟨hholds, -⟩ | ⟨hholds, -⟩
    · exact absurd (hholds.symm.trans hbelow) nofun
    · exact absurd (hholds.symm.trans habove) nofun
  · exact absurd (hsome.symm.trans hnone) nofun
  · exact absurd (hsome.symm.trans hnone) nofun

theorem spans_of_multiple?_eq_some (hsome : range.multiple? tie step = some multiple) :
    range.Spans (multiple * step : Nat) ∧ ∀ {number : ℚ}, range.Apart step number →
      range.Spans number →
        |((multiple * step : Nat) : ℚ) - range.centre| ≤ |number - range.centre| := by
  have hbelowCast : ((range.centre - range.centre / step * step : Nat) : ℚ) =
      |((range.centre / step * step : Nat) : ℚ) - range.centre| := by
    rw [abs_of_nonpos (sub_nonpos.mpr (range.below_le step)),
      Nat.cast_sub (Nat.div_mul_le_self _ _), neg_sub]
  have haboveCast : (((range.centre / step + 1) * step - range.centre : Nat) : ℚ) =
      |(((range.centre / step + 1) * step : Nat) : ℚ) - range.centre| := by
    have habove := range.le_above hstep
    rw [abs_of_nonneg (sub_nonneg.mpr habove), Nat.cast_sub (Nat.cast_le.mp habove)]
  rcases range.multiple?_cases tie step with
    ⟨hnone, -⟩ | ⟨hfound, hholds, hnearer⟩ | ⟨hfound, hholds, hnearer⟩
  · exact absurd (hsome.symm.trans hnone) nofun
  · obtain rfl := Option.some.inj (hfound.symm.trans hsome)
    refine ⟨holds_iff_spans.mp hholds, fun hapart hnumber => ?_⟩
    rcases hapart.spans hstep hcentre hnumber with ⟨-, hle⟩ | ⟨hother, hle⟩
    · exact hle
    · refine le_trans ?_ hle
      rw [← hbelowCast, ← haboveCast]
      exact Nat.cast_le.mpr (hnearer hother)
  · obtain rfl := Option.some.inj (hfound.symm.trans hsome)
    refine ⟨holds_iff_spans.mp hholds, fun hapart hnumber => ?_⟩
    rcases hapart.spans hstep hcentre hnumber with ⟨hother, hle⟩ | ⟨-, hle⟩
    · refine le_trans ?_ hle
      rw [← hbelowCast, ← haboveCast]
      exact Nat.cast_le.mpr (hnearer hother)
    · exact hle

/-- A step that is narrower than the neighbourhood does not miss it. -/
theorem exists_multiple? (hnarrow : range.lower + step < range.upper) (tie : Tie) :
    ∃ multiple, range.multiple? tie step = some multiple := by
  cases hsearch : range.multiple? tie step with
  | some multiple => exact ⟨multiple, rfl⟩
  | none =>
      have hdivision := Nat.div_add_mod (range.upper - 1) step
      have hrest := Nat.mod_lt (range.upper - 1) hstep
      rw [Nat.mul_comm] at hdivision
      have hspans : range.Spans ((range.upper - 1) / step * step : Nat) := by
        apply spans_of_lt
        · exact Nat.cast_lt.mpr (by omega)
        · exact Nat.cast_lt.mpr (by omega)
      exact absurd hspans (not_spans_of_multiple?_eq_none hstep hcentre hsearch
        (range.apart_multiple _ step))

end Search

end Neighbourhood

/-! ### Steps -/

/-- How many digits stand in front of the last place of the grid. -/
def leadingPlaces (magnitude : Nat) : Nat :=
  (Nat.toDigits 10 ((neighbourhood magnitude).centre / binaryUnit)).length

/-- The step between the numbers with at most so many digits that are as great. -/
def stepOf (magnitude count : Nat) : Nat :=
  Nat.pow 10 (leadingPlaces magnitude - count) * binaryUnit

theorem stepOf_pos (magnitude count : Nat) : 0 < stepOf magnitude count :=
  Nat.mul_pos (natPow_pos 10 _ (by decide)) binaryUnit_pos

theorem pow_mul_stepOf (magnitude count exponent : Nat) : 10 ^ exponent * stepOf magnitude count =
    10 ^ (exponent + (leadingPlaces magnitude - count)) * binaryUnit := by
  rw [stepOf, Nat.pow_eq, Nat.pow_add, Nat.mul_assoc]

theorem toDigits_bounds {n : Nat} (hpositive : 0 < n) :
    10 ^ ((Nat.toDigits 10 n).length - 1) ≤ n ∧ n < 10 ^ (Nat.toDigits 10 n).length := by
  have hlength : 0 < (Nat.toDigits 10 n).length := Nat.length_toDigits_pos
  constructor
  · rcases Nat.eq_zero_or_pos ((Nat.toDigits 10 n).length - 1) with hzero | hmore
    · rw [hzero]
      exact hpositive
    · by_contra hlt
      have hshort := (Nat.length_toDigits_le_iff (by decide) hmore).mpr (Nat.lt_of_not_le hlt)
      omega
  · exact (Nat.length_toDigits_le_iff (by decide) hlength).mp (Nat.le_refl _)

section Steps

variable (magnitude : Nat)

theorem spans_centre :
    (neighbourhood (magnitude + 1)).Spans (neighbourhood (magnitude + 1)).centre := by
  have hlower := two_mul_lower magnitude
  have hupper := two_mul_upper (magnitude + 1)
  have hbelow := onGrid_lt_succ magnitude
  have habove : onGrid (magnitude + 1) < onGrid (magnitude + 2) := onGrid_lt_succ (magnitude + 1)
  apply Neighbourhood.spans_of_lt
  · rw [← onGrid]
    linarith
  · rw [← onGrid]
    linarith

theorem le_whole_centre : 10 ^ 16 ≤ (neighbourhood (magnitude + 1)).centre / binaryUnit := by
  have hscaled := scaled_pos (Nat.succ_ne_zero magnitude)
  have hgrid : 10 ^ 16 * binaryUnit ≤ 2 * Nat.pow 10 gridExponent := by decide +kernel
  rw [Nat.le_div_iff_mul_le binaryUnit_pos, neighbourhood]
  generalize Nat.pow 10 gridExponent = grid at hgrid ⊢
  calc 10 ^ 16 * binaryUnit
      ≤ 2 * grid := hgrid
    _ ≤ 2 * scaled (magnitude + 1) * grid :=
        Nat.mul_le_mul_right grid (Nat.le_mul_of_pos_right 2 hscaled)

theorem whole_centre_bounds :
    10 ^ (leadingPlaces (magnitude + 1) - 1) * binaryUnit ≤
        (neighbourhood (magnitude + 1)).centre ∧
      (neighbourhood (magnitude + 1)).centre < 10 ^ leadingPlaces (magnitude + 1) * binaryUnit := by
  have hpositive := Nat.lt_of_lt_of_le (Nat.pow_pos (by decide)) (le_whole_centre magnitude)
  obtain ⟨hlower, hupper⟩ := toDigits_bounds hpositive
  constructor
  · exact (Nat.le_div_iff_mul_le binaryUnit_pos).mp hlower
  · exact (Nat.div_lt_iff_lt_mul binaryUnit_pos).mp hupper

theorem le_leadingPlaces : 17 ≤ leadingPlaces (magnitude + 1) := by
  have hlower := le_whole_centre magnitude
  have hupper := (toDigits_bounds (Nat.lt_of_lt_of_le (Nat.pow_pos (by decide)) hlower)).2
  exact (Nat.pow_lt_pow_iff_right (by decide)).mp (Nat.lt_of_le_of_lt hlower hupper)

/-- **Seventeen digits are enough.** The step between numbers of seventeen digits is narrower than
the neighbourhood. -/
theorem lower_add_stepOf_lt : (neighbourhood (magnitude + 1)).lower + stepOf (magnitude + 1) 17 <
    (neighbourhood (magnitude + 1)).upper := by
  have hplaces := le_leadingPlaces magnitude
  have hcentre := (whole_centre_bounds magnitude).1
  have hgap : 2 * scaled (magnitude + 1) <
      10 ^ 16 * (spacing magnitude + spacing (magnitude + 1)) := two_mul_scaled_lt magnitude
  have hgrid := grid_pos
  have hstep : 10 ^ 16 * stepOf (magnitude + 1) 17 =
      10 ^ (leadingPlaces (magnitude + 1) - 1) * binaryUnit := by
    have hplaces : 16 + (leadingPlaces (magnitude + 1) - 17) =
        leadingPlaces (magnitude + 1) - 1 := by omega
    rw [pow_mul_stepOf, hplaces]
  simp only [neighbourhood, Nat.add_sub_cancel] at hcentre ⊢
  rw [← hstep] at hcentre
  generalize Nat.pow 10 gridExponent = grid at hgrid hcentre ⊢
  have hspacing : scaled (magnitude + 1) + scaled (magnitude + 2) =
      scaled magnitude + scaled (magnitude + 1) +
        (spacing magnitude + spacing (magnitude + 1)) := by
    have hbelow := scaled_succ magnitude
    have habove : scaled (magnitude + 2) = _ := scaled_succ (magnitude + 1)
    omega
  have hnarrow : 10 ^ 16 * stepOf (magnitude + 1) 17 <
      10 ^ 16 * ((spacing magnitude + spacing (magnitude + 1)) * grid) := by
    calc 10 ^ 16 * stepOf (magnitude + 1) 17
        ≤ 2 * scaled (magnitude + 1) * grid := hcentre
      _ < 10 ^ 16 * (spacing magnitude + spacing (magnitude + 1)) * grid :=
          Nat.mul_lt_mul_of_pos_right hgap hgrid
      _ = 10 ^ 16 * ((spacing magnitude + spacing (magnitude + 1)) * grid) := Nat.mul_assoc _ _ _
  change _ < (scaled (magnitude + 1) + scaled (magnitude + 2)) * grid
  rw [hspacing, Nat.add_mul (scaled magnitude + scaled (magnitude + 1))]
  exact Nat.add_lt_add_left (Nat.lt_of_mul_lt_mul_left hnarrow) _

end Steps

/-! ### Digits -/

theorem FitsDigits.mono {count more : Nat} {number : ℚ} (hfits : FitsDigits count number)
    (hle : count ≤ more) : FitsDigits more number := by
  obtain ⟨n, exponent, hlength, rfl⟩ := hfits
  exact ⟨n, exponent, hlength.trans hle, rfl⟩

theorem FitsDigits.pos {count : Nat} {number : ℚ} (hfits : FitsDigits count number) :
    0 < count := by
  obtain ⟨n, exponent, hlength, -⟩ := hfits
  exact Nat.lt_of_lt_of_le Nat.length_toDigits_pos hlength

theorem fitsDigits_of_le {count n : Nat} (hpositive : 0 < count) (hle : n ≤ 10 ^ count)
    (exponent : Int) : FitsDigits count (n * 10 ^ exponent) := by
  rcases Nat.lt_or_eq_of_le hle with hlt | rfl
  · exact ⟨n, exponent, (Nat.length_toDigits_le_iff (by decide) hpositive).mpr hlt, rfl⟩
  · refine ⟨1, count + exponent, hpositive, ?_⟩
    rw [zpow_add₀ (by decide), zpow_natCast]
    push_cast
    ring

/-- A number in units of the grid, by its digits. -/
theorem mul_gridUnit (n : Nat) (exponent : Int) :
    (n * 10 ^ exponent) * gridUnit = n * 10 ^ (exponent + gridExponent) * binaryUnit := by
  rw [gridUnit, zpow_add₀ (by decide), zpow_natCast]
  ring

/-- Numbers with so many digits that are as great as the centre are multiples of the step, and
smaller ones lie below a multiple of it. -/
theorem FitsDigits.apart {count : Nat} {number : ℚ} (hfits : FitsDigits count number)
    {magnitude : Nat} (hcount : count ≤ leadingPlaces (magnitude + 1)) :
    (neighbourhood (magnitude + 1)).Apart (stepOf (magnitude + 1) count) (number * gridUnit) := by
  have hpositive := hfits.pos
  obtain ⟨n, exponent, hlength, rfl⟩ := hfits
  have hn : n < 10 ^ count := (Nat.length_toDigits_le_iff (by decide) hpositive).mp hlength
  have hten : (10 : ℚ) ≠ 0 := by decide
  rw [mul_gridUnit]
  by_cases hgreat : ((leadingPlaces (magnitude + 1) - count : Nat) : Int) ≤ exponent + gridExponent
  · obtain ⟨places, hplaces⟩ := Int.le.dest hgreat
    have hmultiple : (n : ℚ) * 10 ^ (exponent + gridExponent) * binaryUnit =
        ((n * 10 ^ places) * stepOf (magnitude + 1) count : Nat) := by
      rw [← hplaces, zpow_add₀ hten, zpow_natCast, zpow_natCast, stepOf, Nat.pow_eq]
      push_cast
      ring
    rw [hmultiple]
    exact Neighbourhood.apart_multiple _ _ _
  · have hstep : 10 ^ (leadingPlaces (magnitude + 1) - 1) * binaryUnit =
        10 ^ (count - 1) * stepOf (magnitude + 1) count := by
      have hplaces : count - 1 + (leadingPlaces (magnitude + 1) - count) =
          leadingPlaces (magnitude + 1) - 1 := by omega
      rw [pow_mul_stepOf, hplaces]
    have hbelow : (n : ℚ) * 10 ^ (exponent + gridExponent) ≤
        10 ^ (leadingPlaces (magnitude + 1) - 1) := by
      have hexponent : exponent + gridExponent ≤
          ((leadingPlaces (magnitude + 1) - 1 : Nat) : Int) - count := by omega
      calc (n : ℚ) * 10 ^ (exponent + gridExponent)
          ≤ 10 ^ count * 10 ^ (((leadingPlaces (magnitude + 1) - 1 : Nat) : Int) - count) := by
            gcongr
            · exact_mod_cast hn.le
            · norm_num
        _ = 10 ^ (leadingPlaces (magnitude + 1) - 1) := by
            rw [zpow_sub₀ hten, zpow_natCast, zpow_natCast]
            field_simp
    refine Neighbourhood.apart_of_le (10 ^ (count - 1)) ?_ ?_
    · rw [← hstep]
      push_cast
      gcongr
    · rw [← hstep]
      exact (whole_centre_bounds magnitude).1

/-! ### The search -/

/-- A multiple was found for a number of digits, and none for fewer. -/
structure Found (tie : Tie) (magnitude count multiple : Nat) : Prop where
  pos : 0 < count
  le : count ≤ 17
  some : (neighbourhood magnitude).multiple? tie (stepOf magnitude count) = some multiple
  none {fewer : Nat} (hpos : 0 < fewer) (hlt : fewer < count) :
    (neighbourhood magnitude).multiple? tie (stepOf magnitude fewer) = none

/-- The places of the multiple in front of the last place of the grid. -/
def placesOf (magnitude count multiple : Nat) : Nat :=
  (Nat.toDigits 10 multiple).length + (leadingPlaces magnitude - count)

theorem exists_found (tie : Tie) (magnitude : Nat) : ∃ count multiple,
    Found tie (magnitude + 1) count multiple ∧ shortest tie (magnitude + 1) =
      ⟨significantDigits multiple,
        (placesOf (magnitude + 1) count multiple : Int) - gridExponent⟩ := by
  obtain ⟨last, hlast⟩ := Neighbourhood.exists_multiple? (stepOf_pos (magnitude + 1) 17)
    (spans_centre magnitude) (lower_add_stepOf_lt magnitude) tie
  have hunit : Nat.pow 2 1075 = binaryUnit := by
    unfold binaryUnit
    rfl
  rw [shortest, if_neg (Nat.succ_ne_zero magnitude)]
  dsimp only
  rw [hunit]
  cases hsearch : List.findSome? _ (List.range' 1 17) with
  | none =>
      have hnone := List.findSome?_eq_none_iff.mp hsearch 17 (by decide)
      exact absurd (Option.bind_eq_none_iff.mp hnone last hlast) nofun
  | some decimal =>
      obtain ⟨before, count, behind, hrange, hcandidate, hbefore⟩ :=
        List.findSome?_eq_some_iff.mp hsearch
      obtain ⟨multiple, hmultiple, hdecimal⟩ := Option.bind_eq_some_iff.mp hcandidate
      obtain ⟨taken, htaken, rfl, hrest⟩ := List.range'_eq_append_iff.mp hrange
      obtain ⟨rfl, hleft, -⟩ := List.range'_eq_cons_iff.mp hrest.symm
      refine ⟨_, multiple, ⟨by omega, by omega, hmultiple, fun {fewer} hpos hlt => ?_⟩,
        (Option.some.inj hdecimal).symm⟩
      have hfewer := hbefore fewer (List.mem_range'_1.mpr (by omega))
      cases hsome : (neighbourhood (magnitude + 1)).multiple? tie
          (stepOf (magnitude + 1) fewer) with
      | none => rfl
      | some other => exact absurd (Option.bind_eq_none_iff.mp hfewer other hsome) nofun

/-- The number of a multiple of the step. -/
def multipleOf (magnitude count multiple : Nat) : ℚ :=
  multiple * 10 ^ (((leadingPlaces magnitude - count : Nat) : Int) - gridExponent)

theorem multipleOf_mul_gridUnit (magnitude count multiple : Nat) :
    multipleOf magnitude count multiple * gridUnit = (multiple * stepOf magnitude count : Nat) := by
  rw [multipleOf, mul_gridUnit, Int.sub_add_cancel, zpow_natCast, stepOf, Nat.pow_eq]
  push_cast
  ring

section Found

variable {tie : Tie} {magnitude count multiple : Nat}
  (hfound : Found tie (magnitude + 1) count multiple)
include hfound

theorem Found.le_pow : multiple ≤ 10 ^ count := by
  have hplaces := le_leadingPlaces magnitude
  have hcount := hfound.le
  have hcentre := (whole_centre_bounds magnitude).2
  have hstep : 10 ^ leadingPlaces (magnitude + 1) * binaryUnit =
      10 ^ count * stepOf (magnitude + 1) count := by
    rw [pow_mul_stepOf, Nat.add_sub_of_le (hcount.trans hplaces)]
  rw [hstep, ← Nat.div_lt_iff_lt_mul (stepOf_pos _ _)] at hcentre
  rcases (neighbourhood (magnitude + 1)).multiple?_cases tie (stepOf (magnitude + 1) count) with
    ⟨hnone, -⟩ | ⟨hsome, -⟩ | ⟨hsome, -⟩
  · exact absurd (hfound.some.symm.trans hnone) nofun
  · rw [Option.some.inj (hfound.some.symm.trans hsome)]
    exact hcentre.le
  · rw [Option.some.inj (hfound.some.symm.trans hsome)]
    exact hcentre

theorem Found.isShortest :
    IsShortest (multipleOf (magnitude + 1) count multiple) (magnitude + 1) := by
  have hplaces := le_leadingPlaces magnitude
  have hmost := hfound.le
  have hunits := multipleOf_mul_gridUnit (magnitude + 1) count multiple
  obtain ⟨hspans, hnearest⟩ := Neighbourhood.spans_of_multiple?_eq_some
    (stepOf_pos (magnitude + 1) count) (spans_centre magnitude) hfound.some
  have hfits : FitsDigits count (multipleOf (magnitude + 1) count multiple) :=
    fitsDigits_of_le hfound.pos hfound.le_pow _
  constructor
  · rw [roundsTo_iff_spans, hunits]
    exact hspans
  · intro other places hother hplacesOther
    rcases Nat.lt_or_ge places count with hfewer | hmore
    · have hapart := hplacesOther.apart (hfewer.le.trans (hmost.trans hplaces))
      exact absurd ((roundsTo_iff_spans other magnitude).mp hother)
        (Neighbourhood.not_spans_of_multiple?_eq_none (stepOf_pos _ _) (spans_centre magnitude)
          (hfound.none hplacesOther.pos hfewer) hapart)
    · exact hfits.mono hmore
  · intro other places hother hplacesOther hleast
    have hle : places ≤ count := Nat.le_of_not_lt fun hlt => hleast count hlt hfits
    have hapart := (hplacesOther.mono hle).apart (hmost.trans hplaces)
    have hdistance := hnearest hapart ((roundsTo_iff_spans other magnitude).mp hother)
    rw [← hunits, ← onGrid, ← abs_sub_mul_gridUnit, ← abs_sub_mul_gridUnit] at hdistance
    exact le_of_mul_le_mul_right hdistance gridUnit_pos

end Found

/-! ### Significant digits -/

/-- What is cut off are zeros. -/
theorem exists_zeros (n : Nat) :
    ∃ zeros, Nat.toDigits 10 n = significantDigits n ++ List.replicate zeros '0' := by
  have hsplit := (Nat.toDigits 10 n).reverse.takeWhile_append_dropWhile (p := (· == '0'))
  have hzeros : ∀ c ∈ (Nat.toDigits 10 n).reverse.takeWhile (· == '0'), c = '0' :=
    fun c hc => beq_iff_eq.mp (List.mem_takeWhile_imp (p := (· == '0')) hc)
  refine ⟨((Nat.toDigits 10 n).reverse.takeWhile (· == '0')).length, ?_⟩
  rw [significantDigits, ← List.reverse_replicate, ← List.eq_replicate_of_mem hzeros,
    ← List.reverse_append, hsplit, List.reverse_reverse]

theorem number_significantDigits (n places : Nat) (shift : Int) :
    Decimal.number ⟨significantDigits n,
        (((Nat.toDigits 10 n).length + places : Nat) : Int) - shift⟩ =
      n * 10 ^ ((places : Int) - shift) := by
  obtain ⟨zeros, hzeros⟩ := exists_zeros n
  have hvalue : n = 10 ^ zeros * Nat.ofDigitChars 10 (significantDigits n) 0 := by
    rw [← Nat.ofDigitChars_replicate_zero, ← Nat.ofDigitChars_append, ← hzeros,
      Nat.ofDigitChars_ten_toDigits]
  have hlength : (Nat.toDigits 10 n).length = (significantDigits n).length + zeros := by
    rw [hzeros, List.length_append, List.length_replicate]
  have hexponent : (((Nat.toDigits 10 n).length + places : Nat) : Int) - shift -
      (significantDigits n).length = zeros + (places - shift) := by
    rw [hlength]
    push_cast
    ring
  rw [Decimal.number, hexponent, zpow_add₀ (by decide), zpow_natCast]
  conv_rhs => rw [hvalue]
  push_cast
  ring

/-! ### The shortest decimal -/

theorem isShortest_zero : IsShortest 0 0 := by
  constructor
  · intro other hother
    left
    rw [absolute_zero, zero_sub, abs_neg, abs_zero, zero_sub, abs_neg]
    exact abs_pos.mpr (absolute_pos hother).ne'
  · intro other count hother hfits
    exact ⟨0, 0, hfits.pos, by simp⟩
  · intro other count hother hfits hleast
    rw [absolute_zero, sub_zero, abs_zero]
    exact abs_nonneg _

theorem number_shortest_zero (tie : Tie) : (shortest tie 0).number = 0 := by
  simp [shortest, Decimal.number, Nat.ofDigitChars_cons]

/-- **The shortest decimal.** The decimal of a magnitude rounds to it; no number that does has fewer
digits, and none with as few lies nearer. -/
theorem isShortest_shortest (tie : Tie) (magnitude : Nat) :
    IsShortest (shortest tie magnitude).number magnitude := by
  cases magnitude with
  | zero =>
      rw [number_shortest_zero]
      exact isShortest_zero
  | succ magnitude =>
      obtain ⟨count, multiple, hfound, hshortest⟩ := exists_found tie magnitude
      rw [hshortest, placesOf, number_significantDigits]
      exact hfound.isShortest

end Binary64

end TreeProjection
