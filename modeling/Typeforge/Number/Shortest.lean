/-
# `Typeforge.Number.Shortest` — the shortest decimal that reads back

A positive number `m · 2 ^ q` is named by the decimal with the fewest digits
among those that round to it, and among those by the nearest.  The search goes
over the grids of one, two, … seventeen digits: on each only the two
neighbours of the number can be the nearest point, so two candidates a grid
are enough.  When they are equally near, a rule for ties decides.  All
comparisons are between natural numbers.

The points that round to `m · 2 ^ q` fill the interval between the two
midpoints with its neighbouring numbers; the ends belong to it when `m` is
even.  Below a power of two the lower neighbour is half as far away.
-/

namespace Typeforge

/-- The decimal `digits · 10 ^ exponent`. -/
structure Decimal where
  digits : Nat
  exponent : Int
deriving Repr, DecidableEq

namespace Decimal

/-- How many decimal digits a natural number is written with. -/
def width (n : Nat) : Nat := (Nat.toDigits 10 n).length

/-- The decimal without the zeros at its end; `fuel` bounds their number. -/
def trimZeros : Nat → Decimal → Decimal
  | 0, d => d
  | fuel + 1, d =>
    if d.digits ≠ 0 ∧ d.digits % 10 = 0 then trimZeros fuel ⟨d.digits / 10, d.exponent + 1⟩ else d

end Decimal

/-- A positive fraction `numerator / denominator`. -/
structure Fraction where
  numerator : Nat
  denominator : Nat

namespace Fraction

/-- The fraction times `10 ^ e`, for an exponent of either sign. -/
def scale (r : Fraction) : Int → Fraction
  | .ofNat e => ⟨r.numerator * Nat.pow 10 e, r.denominator⟩
  | .negSucc e => ⟨r.numerator, r.denominator * Nat.pow 10 (e + 1)⟩

/-- The least `t` for which `10 ^ t` times the fraction reaches one, when it is below `fuel`. -/
def shiftToOne (r : Fraction) : Nat → Nat → Nat
  | 0, t => t
  | fuel + 1, t => if r.denominator ≤ r.numerator * Nat.pow 10 t then t else shiftToOne r fuel (t + 1)

/-- The exponent `e` with `10 ^ e ≤ r < 10 ^ (e + 1)`. -/
def magnitude (r : Fraction) : Int :=
  if r.denominator ≤ r.numerator then (Decimal.width (r.numerator / r.denominator) : Int) - 1
  else -(shiftToOne r 400 0 : Int)

end Fraction

/-- The interval of decimals that round to a number, in quarters of its last binary place. -/
structure Interval where
  low : Nat
  middle : Nat
  high : Nat
  closed : Bool
  /-- A quarter of the last place, as `2 ^ exponent`. -/
  exponent : Int

namespace Interval

/-- The interval of `m · 2 ^ q`. The smallest normal binade has no finer one below it. -/
def ofBinary (m : Nat) (q : Int) : Interval :=
  let narrow := decide (m = Nat.pow 2 52 ∧ q ≠ -1074)
  { low := 4 * m - (if narrow then 1 else 2), middle := 4 * m, high := 4 * m + 2,
    closed := decide (m % 2 = 0), exponent := q - 2 }

/-- The numerator of the interval's points and their common denominator. -/
def units (i : Interval) (n : Nat) : Fraction :=
  match i.exponent with
  | .ofNat e => ⟨n * Nat.pow 2 e, 1⟩
  | .negSucc e => ⟨n, Nat.pow 2 (e + 1)⟩

/-- Whether the point `d · unit` of a grid lies in the interval, the interval's ends given as
multiples of `1 / scale` and the grid's unit as `unit / scale`. -/
def holds (i : Interval) (low high point : Nat) : Bool :=
  if i.closed then decide (low ≤ point ∧ point ≤ high) else decide (low < point ∧ point < high)

end Interval

/-- Which of two decimals names a number that is equally near to both. -/
inductive Tie where
  | toLarger
  | toEven
deriving Repr, DecidableEq

/-- Whether the lower of two neighbours on a grid, the multiple `below` of its unit, wins a tie. -/
def Tie.takesLower (tie : Tie) (below : Nat) : Bool :=
  match tie with
  | .toLarger => false
  | .toEven => below % 2 == 0

/-- The point of the grid with unit `10 ^ e` that names the interval's middle, if one lies in
the interval: the nearer of the two neighbours, or the one the rule for ties takes. -/
def gridPoint? (tie : Tie) (i : Interval) (e : Int) : Option Decimal :=
  -- Both sides are multiplied out, so that a grid point is `d * unit` and the ends are naturals.
  let binary := i.units 1
  let unit := match e with
    | .ofNat n => Nat.pow 10 n * binary.denominator
    | .negSucc _ => binary.denominator
  let factor := match e with
    | .ofNat _ => binary.numerator
    | .negSucc n => binary.numerator * Nat.pow 10 (n + 1)
  let low := i.low * factor
  let middle := i.middle * factor
  let high := i.high * factor
  let below := middle / unit
  let above := below + 1
  let belowIn := i.holds low high (below * unit)
  let aboveIn := i.holds low high (above * unit)
  let twice := 2 * (middle - below * unit)
  let nearerBelow := decide (twice < unit) || (twice == unit && tie.takesLower below)
  if belowIn && (nearerBelow || !aboveIn) then some ⟨below, e⟩
  else if aboveIn then some ⟨above, e⟩
  else none

/-- Tries the grids of `width`, `width + 1`, … digits, `fuel` of them. -/
def searchGrids (tie : Tie) (i : Interval) (top : Int) : Nat → Nat → Decimal
  | 0, _ => ⟨i.middle, 0⟩
  | fuel + 1, width =>
    match gridPoint? tie i (top - width + 1) with
    | some d => d.trimZeros 20
    | none => searchGrids tie i top fuel (width + 1)

/-- The shortest decimal that reads back as `m · 2 ^ q`, for `m` positive. Seventeen digits
always suffice. -/
def shortestDecimal (tie : Tie) (m : Nat) (q : Int) : Decimal :=
  let i := Interval.ofBinary m q
  searchGrids tie i (i.units i.middle).magnitude 17 1

end Typeforge
