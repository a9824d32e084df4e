import TracePlayback.Layout.Basic

/-!
# Pulses

One pulse travels along every link from its source to its target, and begins anew when it arrives.
Its phase is the fraction of the way it has gone, from 0 up to but not including 1.
-/
namespace TracePlayback

structure Pulse where
  link : Link
  phase : Float32
  deriving DecidableEq

/-- The pulses in the order of the links. -/
structure PulseField where
  pulses : List Pulse

namespace PulseField

def empty : PulseField := ⟨[]⟩

def size (f : PulseField) : Nat := f.pulses.length

def phase? (f : PulseField) (link : Link) : Option Float32 :=
  (f.pulses.find? (·.link = link)).map Pulse.phase

variable {γ : Type} [Generator γ]

/-- The pulses for a list of links: a link that `old` has keeps its phase, others begin somewhere. -/
def place (old : PulseField) : List Link → γ → List Pulse × γ
  | [], g => ([], g)
  | l :: rest, g =>
    match old.phase? l with
    | some p =>
      let (pulses, g) := place old rest g
      (⟨l, p⟩ :: pulses, g)
    | none =>
      let (p, g) := Random.uniform 0 1 g
      let (pulses, g) := place old rest g
      (⟨l, p⟩ :: pulses, g)

/-- Retargets the pulses at the links of a graph. -/
def sync (f : PulseField) (graph : Graph) (g : γ) : PulseField × γ :=
  let (pulses, g) := place f graph.links g
  (⟨pulses⟩, g)

/-- Moves every pulse on for `dt` seconds. An advance that is not finite or not positive moves
nothing. -/
def tick (f : PulseField) (dt speed : Float32) : PulseField :=
  let advance := dt * speed
  if ¬ advance.isFinite ∨ advance ≤ 0 then f
  else ⟨f.pulses.map fun p => { p with phase := Scalar.fract (p.phase + advance) }⟩

/-- Where the pulses are whose two ends the layout has. -/
def positions (f : PulseField) (l : Layout) : List (Link × Vec3) :=
  f.pulses.filterMap fun p => do
    return (p.link, (← l.position? p.link.source).lerp (← l.position? p.link.target) p.phase)

end PulseField
end TracePlayback
