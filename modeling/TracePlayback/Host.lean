import TracePlayback.Engine

/-!
# The host

A host runs the engine frame by frame. Feeds wait in a queue; each frame takes some of them in, then
moves the layout and plays on by the time since the last frame.
-/
namespace TracePlayback

/-- An engine, and the feeds that wait for it. -/
structure Host (γ : Type) where
  engine : Engine γ
  queue : List Feed
  /-- Whether the queue is connected to the engine. -/
  connected : Bool

namespace Host

variable {γ : Type}

/-- How many feeds one frame takes in at most. -/
def maxFeeds : Nat := 1000

/-- A time in nanoseconds as seconds: the whole seconds and the rest, each rounded, then added. -/
def seconds (nanos : Nat) : Float32 :=
  Float32.ofNat (nanos / Clock.nanosPerSecond) +
    Float32.ofNat (nanos % Clock.nanosPerSecond) / Float32.ofNat Clock.nanosPerSecond

/-- Queues a feed. -/
def send (h : Host γ) (feed : Feed) : Host γ := { h with queue := h.queue ++ [feed] }

def applyAll [Generator γ] : List Feed → Engine γ → List Event × Engine γ
  | [], e => ([], e)
  | feed :: rest, e =>
    let (events, e) := e.apply feed
    let (more, e) := applyAll rest e
    (events ++ more, e)

/-- One frame of some nanoseconds: the events it shows, and the host afterwards. -/
def frame [Generator γ] (h : Host γ) (nanos : Nat) : Except EngineError (List Event × Host γ) := do
  let count := if h.connected then maxFeeds else 0
  let (fed, engine) := applyAll (h.queue.take count) h.engine
  let (played, engine) ← (engine.tickFrame (seconds nanos)).advancePlayback nanos
  pure (fed ++ played, { h with engine := engine, queue := h.queue.drop count })

end Host
end TracePlayback
