import TracePlayback.Decimal.Basic

/-!
# The shortest decimal that reads back

A double is shown with as few digits as still tell it from every other double. The search goes over
decimal grids from coarse to fine. On each grid only the two neighbours of the exact value need a
look: if any point of the grid reads back, one of them does. On the finest grid the exact value
itself is a point, so the search always ends with a decimal that reads back.
-/
namespace TracePlayback.Decimal

/-- Which of two neighbours is taken when they are equally near. -/
inductive Tie where
  /-- The one of larger magnitude. -/
  | away
  /-- The one whose last digit is even. -/
  | even
  deriving DecidableEq, Repr

/-- How many decimal digits a number is written with. -/
def length (n : Nat) : Nat := (Nat.toDigits 10 n).length

/-- Whether the neighbour below is taken of two that read back, given its digits and how much of a
step from it to the next is left. -/
def Tie.takesBelow (tie : Tie) (digits rest step : Nat) : Bool :=
  if 2 * rest = step then tie = .even ∧ digits % 2 = 0 else 2 * rest < step

/-- The neighbour of `d` on the grid of multiples of `10 ^ (d.exponent + places)` that reads back as
`x`, if one does: of two the nearer, and the one that `tie` tells when they are equally near. -/
def neighbour? (tie : Tie) (x : Float) (d : Decimal) (places : Nat) : Option Decimal :=
  let step := Nat.pow 10 places
  let below : Decimal := ⟨d.negative, d.digits / step, d.exponent + places⟩
  let above : Decimal := ⟨d.negative, d.digits / step + 1, d.exponent + places⟩
  let readsBack (c : Decimal) : Bool := c.toFloat.toBits == x.toBits
  match readsBack below, readsBack above with
  | true, true =>
    some (if tie.takesBelow (d.digits / step) (d.digits % step) step then below else above)
  | true, false => some below
  | false, true => some above
  | false, false => none

/-- The first neighbour that reads back, going from the grid `10 ^ places` to finer ones. -/
def firstNeighbour (tie : Tie) (x : Float) (d : Decimal) : Nat → Decimal
  | 0 => d
  | places + 1 =>
    match neighbour? tie x d (places + 1) with
    | some c => c
    | none => firstNeighbour tie x d places

/-- The same number without the zeros at the end of its digits; at most `count` are taken away. -/
def strip : Nat → Decimal → Decimal
  | 0, d => d
  | count + 1, d =>
    if d.digits ≠ 0 ∧ d.digits % 10 = 0 then
      strip count { d with digits := d.digits / 10, exponent := d.exponent + 1 }
    else d

/-- The decimal with the fewest digits that reads back as `x`; none unless `x` is finite. -/
def shortest? (tie : Tie) (x : Float) : Option Decimal :=
  (ofFloat? x).map fun d =>
    if d.digits = 0 then { d with exponent := 0 }
    else
      let places := length d.digits - 1
      strip (places + 1) (firstNeighbour tie x d places)

end TracePlayback.Decimal
