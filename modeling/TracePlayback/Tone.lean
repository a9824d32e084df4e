import TracePlayback.Graph.Input

/-!
# Tones

Every visit of a node sounds a short tone that tells the node's kind.
-/
namespace TracePlayback

inductive Waveform where
  | sine
  | triangle
  | square
  | sawtooth
  deriving DecidableEq, Repr

namespace Waveform

def name : Waveform → String
  | .sine => "Sine"
  | .triangle => "Triangle"
  | .square => "Square"
  | .sawtooth => "Sawtooth"

end Waveform

/-- A tone: its frequency in hertz, its length and its waveform. -/
structure Tone where
  frequency : Float32
  durationMs : Nat
  waveform : Waveform
  deriving DecidableEq

namespace Tone

/-- The tone of a kind of node. Structural nodes sound low and long, statements high and short. -/
def ofKind : NodeKind → Tone
  | .function => ⟨261.63, 220, .sine⟩
  | .loop => ⟨329.63, 160, .triangle⟩
  | .decision => ⟨392.0, 120, .square⟩
  | .operation => ⟨440.0, 90, .sawtooth⟩
  | .statement => ⟨523.25, 70, .sine⟩
  | .unknown => ⟨110.0, 200, .square⟩

end Tone
end TracePlayback
