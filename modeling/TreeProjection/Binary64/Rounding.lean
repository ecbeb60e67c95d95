import TreeProjection.Binary64

/-!
# Rounding to a double

`Binary64.nearest` rounds a quotient of natural numbers to the nearest double, a tie going to the
even one. `Binary64.ofDecimal?` is the value of a decimal literal as this library reads it: the
significand is rounded, then multiplied or divided by a rounded power of ten, so a literal may
come out one step away from the double nearest to it.
-/

namespace TreeProjection

namespace Binary64

/-- The quotient rounded to a whole number, a half going to the even neighbour. -/
def roundHalfEven (num den : Nat) : Nat :=
  let whole := num / den
  let rest := 2 * (num % den)
  if rest < den then whole
  else if den < rest then whole + 1
  else whole + whole % 2

/-- The magnitude nearest to `num / den`, infinity if that lies above the finite ones. -/
def nearest (num den : Nat) : Nat :=
  let scaledNum := num * Nat.pow 2 1074
  let shift := (scaledNum / den).log2 - 52
  min (shift * exponentWeight + roundHalfEven scaledNum (den * Nat.pow 2 shift)) infinity

def product (a b : Nat) : Nat := nearest (scaled a * scaled b) (Nat.pow 2 2148)

def quotient (a b : Nat) : Nat := nearest (scaled a) (scaled b)

def powerOfTen (exponent : Nat) : Nat := nearest (Nat.pow 10 exponent) 1

/-- The greatest exponent of a power of ten that is finite. -/
def greatestPower : Nat := 308

/-- Divides by ten `exponent` times, in steps of the greatest power of ten. -/
def scaleDown (magnitude exponent : Nat) : Nat :=
  if exponent ≤ greatestPower then
    quotient magnitude (powerOfTen exponent)
  else if magnitude = 0 then
    0
  else
    scaleDown (quotient magnitude (powerOfTen greatestPower)) (exponent - greatestPower)
termination_by exponent
decreasing_by simp only [greatestPower] at *; omega

/-- The magnitude of `significand * 10 ^ exponent`; `none` if it lies above the finite ones. -/
def ofDecimal? (significand : Nat) (exponent : Int) : Option Nat :=
  let magnitude := nearest significand 1
  if exponent < 0 then
    some (scaleDown magnitude exponent.natAbs)
  else if exponent.natAbs ≤ greatestPower then
    let scaledUp := product magnitude (powerOfTen exponent.natAbs)
    if scaledUp < infinity then some scaledUp else none
  else if magnitude = 0 then
    some 0
  else
    none

end Binary64

end TreeProjection
