import TracePlayback.Layout.Force
import TracePlayback.Playback.Timeline
import TracePlayback.Pulse

/-!
# The engine

Everything that a view of the graph shows: the layout and the pulses, which move with the frames,
and the timeline, which moves with the time played. The two do not wait for each other. The playback
clock counts nanoseconds, so that frames shorter than a millisecond add up; the timeline shows its
whole milliseconds.
-/
namespace TracePlayback

inductive EngineError where
  /-- The playback clock cannot hold the time. -/
  | clockOverflow
  deriving DecidableEq, Repr

namespace EngineError

def message : EngineError → String
  | .clockOverflow => "overflow when adding durations"

end EngineError

namespace Clock

def nanosPerSecond : Nat := 1000000000

/-- The longest time that the playback clock can hold, in nanoseconds. -/
def maxNanos : Nat := 0xFFFFFFFFFFFFFFFF * nanosPerSecond + (nanosPerSecond - 1)

/-- The whole milliseconds of a time in nanoseconds, as far as the timeline goes. -/
def millis (nanos : Nat) : Nat := min (nanos / 1000000) last

end Clock

/-- The engine, with its source of random numbers. -/
structure Engine (γ : Type) where
  settings : Settings
  graph : Graph
  layout : Layout
  pulses : PulseField
  timeline : Timeline
  /-- The time played, in nanoseconds. -/
  clock : Nat
  random : γ

namespace Engine

variable {γ : Type}

def new (settings : Settings) (sink : Sink) (random : γ) : Engine γ where
  settings := settings
  graph := .empty
  layout := .empty
  pulses := .empty
  timeline := .new settings.playback settings.audio sink
  clock := 0
  random := random

/-- Shows another graph. -/
def loadGraph [Generator γ] (e : Engine γ) (input : GraphInput) : List Event × Engine γ :=
  let graph := Graph.ofInput input
  let (layout, random) := e.layout.sync graph e.settings.layout.initialSpread e.random
  let (pulses, random) := e.pulses.sync graph random
  let (events, timeline) := e.timeline.setGraph graph
  (events, { e with
    graph := graph, layout := layout, pulses := pulses, timeline := timeline, random := random })

def bind (e : Engine γ) (name : ChannelName) (trace : Option Trace) : List Event × Engine γ :=
  let (events, timeline) := e.timeline.bind name trace
  (events, { e with timeline := timeline })

/-- Takes in a feed. -/
def apply [Generator γ] (e : Engine γ) : Feed → List Event × Engine γ
  | .graph input => e.loadGraph input
  | .liveTrace trace => e.bind .live (some (.live trace))
  | .ghostTrace trace => e.bind .ghost (some (.ghost trace))
  | .clear channel => e.bind channel none

def setLooping (e : Engine γ) (name : ChannelName) (looping : Bool) : Engine γ :=
  { e with timeline := e.timeline.setLooping name looping }

def setSink (e : Engine γ) (sink : Sink) : Engine γ :=
  { e with timeline := e.timeline.setSink sink }

/-- Moves layout and pulses on by a frame of `dt` seconds. -/
def tickFrame (e : Engine γ) (dt : Float32) : Engine γ :=
  { e with
    layout := Layout.step e.settings.layout e.layout dt
    pulses := e.pulses.tick (Scalar.smaller dt e.settings.layout.maxDt) e.settings.pulses.speed }

/-- Plays for some nanoseconds. -/
def advancePlayback (e : Engine γ) (nanos : Nat) : Except EngineError (List Event × Engine γ) :=
  let clock := e.clock + nanos
  if Clock.maxNanos < clock then throw .clockOverflow
  else
    let (events, timeline) := e.timeline.advanceTo (Clock.millis clock)
    pure (events, { e with clock := clock, timeline := timeline })

end Engine
end TracePlayback
