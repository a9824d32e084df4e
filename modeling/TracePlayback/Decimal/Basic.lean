/-!
# Decimal fractions and binary floats

A `Decimal` is an exact decimal fraction. Every finite binary float is one, since halves are fives
of the next place, and every decimal has a nearest float (ties to the even significand). Going
through the exact fraction, a value moves from one float width to another with a single rounding.
-/
namespace TracePlayback

/-- The number `digits · 10 ^ exponent`, negated if `negative`. Zero keeps its sign. -/
structure Decimal where
  negative : Bool
  digits : Nat
  exponent : Int
  deriving DecidableEq, Repr

namespace Decimal

/-- The exact decimal form of `m · 2 ^ q`. -/
def ofBinary (negative : Bool) (m : Nat) (q : Int) : Decimal :=
  if 0 ≤ q then ⟨negative, m <<< q.toNat, 0⟩
  else ⟨negative, m * Nat.pow 5 (-q).toNat, q⟩

/-- The exact value of a bit pattern with a sign bit, `exponentBits` of exponent and `fractionBits`
of fraction, or none if it stands for an infinity or for no number. -/
def ofBits? (exponentBits fractionBits bits : Nat) : Option Decimal :=
  let negative := bits.testBit (exponentBits + fractionBits)
  let e := (bits >>> fractionBits) % (1 <<< exponentBits)
  let f := bits % (1 <<< fractionBits)
  let unit : Int := 2 - (1 <<< (exponentBits - 1) : Nat) - fractionBits
  if e + 1 = 1 <<< exponentBits then none
  else if e = 0 then some (ofBinary negative f unit)
  else some (ofBinary negative (f + (1 <<< fractionBits)) (unit + (e - 1)))

def ofFloat? (x : Float) : Option Decimal := ofBits? 11 52 x.toBits.toNat

def ofFloat32? (x : Float32) : Option Decimal := ofBits? 8 23 x.toBits.toNat

/-- The nearest double. -/
def toFloat (d : Decimal) : Float :=
  let x := Float.ofScientific d.digits (d.exponent < 0) d.exponent.natAbs
  if d.negative then -x else x

def toFloat32 (d : Decimal) : Float32 :=
  let x := Float32.ofScientific d.digits (d.exponent < 0) d.exponent.natAbs
  if d.negative then -x else x

end Decimal

/-- A single as the double of the same value. -/
def widen (x : Float32) : Float :=
  match Decimal.ofFloat32? x with
  | some d => d.toFloat
  | none => if x.isNaN then 0.0 / 0.0 else if x < 0 then -1.0 / 0.0 else 1.0 / 0.0

/-- The single nearest to a double. -/
def narrow (x : Float) : Float32 :=
  match Decimal.ofFloat? x with
  | some d => d.toFloat32
  | none => if x.isNaN then 0.0 / 0.0 else if x < 0 then -1.0 / 0.0 else 1.0 / 0.0

end TracePlayback
