import TreeProjection.Binary64

/-!
# Doubles as decimals

`Binary64.shortest` gives the decimal with the fewest digits among those that round to a double,
and of these the nearest to it. `DecimalLayout` holds what a text format decides on top of that:
which of two decimals that are equally near is taken, where positional notation ends and how an
exponent is signed.
-/

namespace TreeProjection

/-- Digits behind a decimal point, moved to the right by `point` places: `0.d₁d₂… * 10 ^ point`. -/
structure Decimal where
  digits : List Char
  point : Int
deriving DecidableEq

/-- Which of two decimals is taken that are equally near: the one with an even last digit, or the
one away from zero. -/
inductive Tie where
  | toEven
  | away
deriving DecidableEq

def Tie.choose : Tie → Nat → Nat
  | .toEven, below => below + below % 2
  | .away, below => below + 1

namespace Binary64

/-- The decimal exponent of the grid on which `shortest` works. It lies below every digit that a
double can need. -/
def gridExponent : Nat := 400

/-- The numbers that round to a magnitude: those between the middles to its two neighbours, and the
middles themselves if the magnitude is even. They are counted in units of
`10 ^ -400 * 2 ^ -1075`. -/
structure Neighbourhood where
  lower : Nat
  centre : Nat
  upper : Nat
  closed : Bool

def neighbourhood (magnitude : Nat) : Neighbourhood :=
  let grid := Nat.pow 10 gridExponent
  { lower := (scaled (magnitude - 1) + scaled magnitude) * grid
    centre := 2 * scaled magnitude * grid
    upper := (scaled magnitude + scaled (magnitude + 1)) * grid
    closed := magnitude % 2 == 0 }

def Neighbourhood.holds (range : Neighbourhood) (value : Nat) : Bool :=
  if range.closed then decide (range.lower ≤ value ∧ value ≤ range.upper)
  else decide (range.lower < value ∧ value < range.upper)

/-- The multiple of `step` that rounds to the centre, if there is one: of the two next to the
centre the nearer, and what the rule for ties says if they are equally near. -/
def Neighbourhood.multiple? (range : Neighbourhood) (tie : Tie) (step : Nat) : Option Nat :=
  let below := range.centre / step
  let above := below + 1
  match range.holds (below * step), range.holds (above * step) with
  | false, false => none
  | true, false => some below
  | false, true => some above
  | true, true =>
      let toBelow := range.centre - below * step
      let toAbove := above * step - range.centre
      if toBelow < toAbove then some below
      else if toAbove < toBelow then some above
      else some (tie.choose below)

def significantDigits (n : Nat) : List Char :=
  ((Nat.toDigits 10 n).reverse.dropWhile (· == '0')).reverse

/-- The decimal with the fewest digits that rounds to a magnitude. Seventeen digits always do. -/
def shortest (tie : Tie) (magnitude : Nat) : Decimal :=
  if magnitude = 0 then
    ⟨['0'], 1⟩
  else
    let range := neighbourhood magnitude
    let length := (Nat.toDigits 10 (range.centre / Nat.pow 2 1075)).length
    let candidate (count : Nat) : Option Decimal := do
      let multiple ← range.multiple? tie (Nat.pow 10 (length - count) * Nat.pow 2 1075)
      let places := (Nat.toDigits 10 multiple).length + (length - count)
      return ⟨significantDigits multiple, (places : Int) - gridExponent⟩
    ((List.range' 1 17).findSome? candidate).getD ⟨['0'], 1⟩

end Binary64

/-- How a format writes a double: its rule for ties between decimals; the decimal positionally if
the point lies in the given range, otherwise with an exponent, in which a plus sign is written or
left out. -/
structure DecimalLayout where
  tie : Tie
  lowestPoint : Int
  highestPoint : Int
  plusSign : Bool

namespace DecimalLayout

/-- Positional notation, with at least one digit on each side of the point. -/
def positional (decimal : Decimal) : List Char :=
  if decimal.point ≤ 0 then
    '0' :: '.' :: List.replicate decimal.point.natAbs '0' ++ decimal.digits
  else
    let whole := decimal.digits.take decimal.point.natAbs
    let fraction := decimal.digits.drop decimal.point.natAbs
    whole ++ List.replicate (decimal.point.natAbs - decimal.digits.length) '0' ++
      '.' :: (if fraction.isEmpty then ['0'] else fraction)

/-- Notation with one digit in front of the point and an exponent. -/
def scientific (layout : DecimalLayout) (decimal : Decimal) : List Char :=
  let exponent := decimal.point - 1
  let sign := if exponent < 0 then ['-'] else if layout.plusSign then ['+'] else []
  let fraction := decimal.digits.drop 1
  decimal.digits.take 1 ++ (if fraction.isEmpty then [] else '.' :: fraction) ++
    'e' :: sign ++ Nat.toDigits 10 exponent.natAbs

def write (layout : DecimalLayout) (decimal : Decimal) : List Char :=
  if layout.lowestPoint ≤ decimal.point ∧ decimal.point ≤ layout.highestPoint then
    positional decimal
  else
    layout.scientific decimal

end DecimalLayout

/-- The text of a finite double in a layout: its shortest decimal behind its sign. -/
def Binary64.text (layout : DecimalLayout) (x : Binary64) : List Char :=
  (if x.isNegative then ['-'] else []) ++ layout.write (Binary64.shortest layout.tie x.magnitude)

def Binary64.nonFiniteText (x : Binary64) : String :=
  if x.isNaN then "NaN" else if x.isNegative then "-inf" else "inf"

end TreeProjection
