/-!
# Random numbers

A generator hands out 32-bit words. From a word, the upper 23 bits make a fraction of the interval
from 0 to 1, which is then stretched over the range asked for.
-/
namespace TracePlayback

/-- A source of random words. -/
class Generator (γ : Type) where
  next : γ → UInt32 × γ

/-- Given words first, then zeros. -/
structure WordSource where
  words : List UInt32

instance : Generator WordSource where
  next
    | ⟨[]⟩ => (0, ⟨[]⟩)
    | ⟨w :: rest⟩ => (w, ⟨rest⟩)

namespace Random

variable {γ : Type} [Generator γ]

/-- The fraction in `[0, 1)` that a word stands for. -/
def fraction (w : UInt32) : Float32 := Float32.ofBits (w >>> 9 ||| 0x3F800000) - 1

/-- The point of `[low, high)` that a word stands for, as rounding leaves it. -/
def stretch (low high : Float32) (w : UInt32) : Float32 := fraction w * (high - low) + low

/-- Draws a number of `[low, high)`. A draw that rounding has carried out of the range is repeated;
after `tries` of them the low end is taken. -/
def uniformWithin (low high : Float32) : Nat → γ → Float32 × γ
  | 0, g => (low, g)
  | tries + 1, g =>
    let (w, g) := Generator.next g
    let x := stretch low high w
    if low ≤ x ∧ x < high then (x, g) else uniformWithin low high tries g

/-- Draws a number of `[low, high)`. -/
def uniform (low high : Float32) (g : γ) : Float32 × γ := uniformWithin low high 64 g

end Random
end TracePlayback
