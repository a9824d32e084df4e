import TracePlayback.Decimal.Basic

/-!
# Numbers of a JSON text

A `Numeral` is a number as it is spelled. Its value is an integer when it has neither a fraction nor
an exponent and fits 64 bits (unsigned, or signed if negative); every other numeral is a double.
The double is computed from the digits that fit an unsigned 64-bit significand and a power of ten,
each rounded once, so that a spelling with many digits may miss the nearest double by a last place.
-/
namespace TracePlayback.Json

/-- A number as spelled: sign, digits before the point, digits after it, and the exponent with its
sign (`true` for a minus). Without a point the fraction is empty. -/
structure Numeral where
  negative : Bool
  whole : List Nat
  fraction : List Nat
  exponent : Option (Bool × List Nat)
  deriving DecidableEq, Repr

inductive Number where
  | integer (n : Int)
  | float (x : Float)

namespace Numeral

def ofInt (n : Int) : Numeral :=
  ⟨n < 0, (Nat.toDigits 10 n.natAbs).map (fun c => c.toNat - 48), [], none⟩

/-- Appends digits to a number as long as it stays at most `limit`; the digits left over. -/
def absorb (limit : Nat) : Nat → List Nat → Nat × List Nat
  | n, [] => (n, [])
  | n, d :: ds => if n * 10 + d ≤ limit then absorb limit (n * 10 + d) ds else (n, d :: ds)

/-- The largest significand kept. -/
def maxSignificand : Nat := 0xFFFFFFFFFFFFFFFF

/-- The largest exponent read digit by digit. -/
def maxExponent : Nat := 0x7FFFFFFF

/-- The double nearest to `10 ^ n`. -/
def powerOfTen (n : Nat) : Float := Float.ofScientific 1 false n

/-- `x / 10 ^ n`, in steps of the largest power that is a double. -/
def scaleDown (x : Float) (n : Nat) : Float :=
  if n ≤ 308 then x / powerOfTen n
  else if x == 0 then x
  else scaleDown (x / powerOfTen 308) (n - 308)
termination_by n

/-- `significand · 10 ^ exponent` as a double; none if it is too large for one. -/
def scale? (significand : Nat) (exponent : Int) : Option Float :=
  let x := Float.ofNat significand
  if exponent < 0 then some (scaleDown x exponent.natAbs)
  else if exponent ≤ 308 then
    let y := x * powerOfTen exponent.toNat
    if y.isInf then none else some y
  else if x == 0 then some x
  else none

/-- The magnitude of a numeral as a double. The digits of the whole part that do not fit the
significand count as places; those of the fraction are dropped. -/
def magnitude? (n : Numeral) : Option Float :=
  let (head, places) := absorb maxSignificand 0 n.whole
  let (significand, dropped) := absorb maxSignificand head n.fraction
  let power : Int := places.length - (n.fraction.length - dropped.length : Nat)
  match n.exponent with
  | none => scale? significand power
  | some (minus, digits) =>
    let (e, more) := absorb maxExponent 0 digits
    if more.isEmpty then scale? significand (if minus then power - e else power + e)
    else if significand ≠ 0 ∧ ¬ minus then none
    else some 0

/-- The value of a numeral; none if it is too large. The negative zero is a float. -/
def value? (n : Numeral) : Option Number :=
  let float := n.magnitude?.map fun x => Number.float (if n.negative then -x else x)
  if n.fraction.isEmpty ∧ n.exponent.isNone then
    let (magnitude, places) := absorb maxSignificand 0 n.whole
    if ¬ places.isEmpty then float
    else if ¬ n.negative then some (.integer magnitude)
    else if magnitude ≠ 0 ∧ magnitude ≤ 0x8000000000000000 then some (.integer (-magnitude))
    else some (.float (-(Float.ofNat magnitude)))
  else float

def write (n : Numeral) : List Char :=
  let digits (ds : List Nat) := ds.map fun d => Char.ofNat (d + 48)
  (if n.negative then ['-'] else []) ++ digits n.whole ++
    (if n.fraction.isEmpty then [] else '.' :: digits n.fraction) ++
    match n.exponent with
    | none => []
    | some (minus, ds) => 'e' :: (if minus then ['-'] else []) ++ digits ds

end Numeral
end TracePlayback.Json
