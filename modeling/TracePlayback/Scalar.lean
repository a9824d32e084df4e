/-!
# Single-precision numbers

The few operations on singles that the layout needs beyond arithmetic. A comparison with something
that is no number never decides: the other operand is taken.
-/
namespace TracePlayback.Scalar

/-- The distance from one to the next single. -/
def epsilon : Float32 := Float32.ofBits 0x34000000

/-- The least positive single of full precision. -/
def leastNormal : Float32 := Float32.ofBits 0x00800000

/-- The larger of two numbers; of a number and no number, the number. -/
def larger (a b : Float32) : Float32 :=
  if a.isNaN then b else if b.isNaN then a else if a < b then b else a

/-- The smaller of two numbers; of a number and no number, the number. -/
def smaller (a b : Float32) : Float32 :=
  if a.isNaN then b else if b.isNaN then a else if b < a then b else a

/-- The nearest value between `low` and `high`; what is no number stays so. -/
def clamp (low high x : Float32) : Float32 :=
  if x < low then low else if high < x then high else x

/-- What remains of a non-negative number without its whole part. From `2 ^ 23` on all singles are
whole. -/
def fract (x : Float32) : Float32 :=
  if 8388608 ≤ x then 0 else x - x.toUInt32.toFloat32

end TracePlayback.Scalar
