/-!
# Double-precision numbers

A double is its 64 bits. The 63 bits below the sign are its magnitude: they are ordered as the
absolute values that they stand for, with infinity above all of them and the NaNs above infinity.

Every finite double is a whole multiple of `2 ^ -1074`, the least positive one. `scaled` gives that
multiple, so exact statements about doubles are statements about natural numbers.
-/

namespace TreeProjection

/-- A double, given by its bits. Two doubles are the same if their bits are; the comparison that
sees `0.0` and `-0.0` as equal and a NaN as unequal to itself is `Binary64.ieeeEq`. -/
structure Binary64 where
  bits : UInt64
deriving DecidableEq

namespace Binary64

def signWeight : Nat := 0x8000000000000000

/-- The weight of the lowest bit of the exponent. The bits below it are the fraction. -/
def exponentWeight : Nat := 0x10000000000000

/-- The bits below the sign. -/
def magnitude (x : Binary64) : Nat := x.bits.toNat % signWeight

def isNegative (x : Binary64) : Bool := decide (signWeight ≤ x.bits.toNat)

def infinity : Nat := 2047 * exponentWeight

def isFinite (x : Binary64) : Bool := decide (x.magnitude < infinity)

def isNaN (x : Binary64) : Bool := decide (infinity < x.magnitude)

def ofMagnitude (negative : Bool) (magnitude : Nat) : Binary64 :=
  ⟨UInt64.ofNat (magnitude + if negative then signWeight else 0)⟩

/-- The absolute value of a magnitude as a multiple of `2 ^ -1074`. -/
def scaled (magnitude : Nat) : Nat :=
  let exponent := magnitude / exponentWeight
  let fraction := magnitude % exponentWeight
  if exponent = 0 then fraction else (exponentWeight + fraction) * Nat.pow 2 (exponent - 1)

/-- Equality of the numbers: both zeros are equal, and a NaN equals nothing. -/
def ieeeEq (x y : Binary64) : Bool :=
  !x.isNaN && !y.isNaN && (decide (x = y) || (x.magnitude == 0 && y.magnitude == 0))

theorem ieeeEq_self_iff (x : Binary64) : ieeeEq x x = true ↔ x.isNaN = false := by
  cases hnan : x.isNaN <;> simp [ieeeEq, hnan]

theorem ieeeEq_comm (x y : Binary64) : ieeeEq x y = ieeeEq y x := by
  have hsame : decide (x = y) = decide (y = x) := decide_eq_decide.mpr eq_comm
  unfold ieeeEq
  rw [hsame, Bool.and_comm (!x.isNaN), Bool.and_comm (x.magnitude == 0)]

end Binary64

end TreeProjection
