/-!
# Settings

All that can be configured, with its defaults. Times are in milliseconds.
-/
namespace TracePlayback

structure LayoutSettings where
  /-- Longer frames count as this long. -/
  maxDtMs : Nat := 50
  repulsion : Float32 := 0.1
  centering : Float32 := 0.01
  spring : Float32 := 0.025
  damping : Float32 := 0.9
  /-- Advance per unit of velocity and second. -/
  speed : Float32 := 10.0
  /-- The longest way in one tick. -/
  maxStep : Float32 := 2.0
  /-- Nodes whose squared distance is less do not repel each other. -/
  epsilonSq : Float32 := 0.001
  /-- Edge length of the cube that new nodes are scattered in. -/
  initialSpread : Float32 := 6.0
  deriving DecidableEq

namespace LayoutSettings

/-- The longest frame in seconds. -/
def maxDt (s : LayoutSettings) : Float32 := Float32.ofNat s.maxDtMs / 1000

end LayoutSettings

structure PlaybackSettings where
  liveStepMs : Nat := 500
  ghostMinDelayMs : Nat := 50
  /-- The delay after the last entry of a recording. -/
  ghostTailMs : Nat := 500
  loopLive : Bool := false
  loopGhost : Bool := false
  deriving DecidableEq

structure PulseSettings where
  /-- Fraction of a link per second. -/
  speed : Float32 := 0.8
  deriving DecidableEq

structure AudioSettings where
  enabled : Bool := true
  deriving DecidableEq

structure Settings where
  layout : LayoutSettings := {}
  playback : PlaybackSettings := {}
  pulses : PulseSettings := {}
  audio : AudioSettings := {}
  deriving DecidableEq

end TracePlayback
