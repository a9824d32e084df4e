import TracePlayback.Playback.Channel
import TracePlayback.Tone

/-!
# The timeline

The two channels and the clock they run on. Time only moves forward; on the way every step that is
due runs in the order of due times, the live channel first when they are equal, and stamped with the
time it was due. One advance runs a limited number of steps; what is still due runs on the next.
-/
namespace TracePlayback

/-- Where tones go: nowhere, or into a recording. -/
inductive Sink where
  | silent
  | recorder (tones : Array Tone)

namespace Sink

def trigger (s : Sink) (t : Tone) : Sink :=
  match s with
  | .silent => .silent
  | .recorder tones => .recorder (tones.push t)

/-- The recorded tones. -/
def tones : Sink → List Tone
  | .silent => []
  | .recorder tones => tones.toList

/-- The same sink with nothing recorded. -/
def rewind : Sink → Sink
  | .silent => .silent
  | .recorder _ => .recorder #[]

end Sink

/-- The clock, the graph and the channels. -/
structure Timeline where
  now : Nat
  graph : Graph
  live : Channel
  ghost : Channel
  settings : PlaybackSettings
  audio : AudioSettings
  sink : Sink

namespace Timeline

/-- How many steps one advance runs at most. -/
def maxSteps : Nat := 10000

def new (settings : PlaybackSettings) (audio : AudioSettings) (sink : Sink) : Timeline where
  now := 0
  graph := .empty
  live := { looping := settings.loopLive }
  ghost := { looping := settings.loopGhost }
  settings := settings
  audio := audio
  sink := sink

def channel (t : Timeline) : ChannelName → Channel
  | .live => t.live
  | .ghost => t.ghost

def setChannel (t : Timeline) (name : ChannelName) (c : Channel) : Timeline :=
  match name with
  | .live => { t with live := c }
  | .ghost => { t with ghost := c }

/-- The channel whose step is due first, and when. -/
def earliest? (t : Timeline) : Option (ChannelName × Nat) :=
  match t.live.due, t.ghost.due with
  | some a, some b => if a ≤ b then some (.live, a) else some (.ghost, b)
  | some a, none => some (.live, a)
  | none, some b => some (.ghost, b)
  | none, none => none

def nextDeadline? (t : Timeline) : Option Nat := t.earliest?.map (·.2)

def isIdle (t : Timeline) : Bool := t.nextDeadline?.isNone

/-- Shows a step: a visit sounds, if audio is on. -/
def sound (t : Timeline) (step : Step) : Timeline :=
  match step with
  | .visit _ kind _ =>
    if t.audio.enabled then { t with sink := t.sink.trigger (Tone.ofKind kind) } else t
  | _ => t

/-- Runs the step of a channel that is due at a time. -/
def fire (t : Timeline) (name : ChannelName) (due : Nat) : List Event × Timeline :=
  let t := { t with now := max t.now due }
  match (t.channel name).fire? t.settings t.graph t.now with
  | none => ([], t)
  | some (time, steps, c) =>
    (steps.map fun step => ⟨name, time, step⟩, steps.foldl sound (t.setChannel name c))

/-- Runs what is due by a target, up to a number of steps. -/
def runDue (target : Nat) : Nat → Timeline → List Event × Timeline
  | 0, t => ([], t)
  | budget + 1, t =>
    match t.earliest? with
    | none => ([], t)
    | some (name, due) =>
      if target < due then ([], t)
      else
        let (events, t) := t.fire name due
        let (more, t) := runDue target budget t
        (events ++ more, t)

/-- Moves the clock forward to a target, running what is due on the way. -/
def advanceTo (t : Timeline) (target : Nat) : List Event × Timeline :=
  let target := min target Clock.last
  let (events, t) := runDue target maxSteps t
  (events, { t with now := max t.now target })

/-- Moves the clock forward by some milliseconds. -/
def advanceBy (t : Timeline) (ms : Nat) : List Event × Timeline := t.advanceTo (Clock.after t.now ms)

/-- Runs what is due now. -/
def catchUp (t : Timeline) : List Event × Timeline := t.advanceTo t.now

/-- Installs a graph. Pending steps belong to the lines of the old one, so all traces start over. -/
def setGraph (t : Timeline) (g : Graph) : List Event × Timeline :=
  let renew (c : Channel) := if c.trace.isSome then c.restart t.now else c.cancel
  { t with graph := g, live := renew t.live, ghost := renew t.ghost }.catchUp

/-- Gives a channel another trace, or none. The other channel is not touched. -/
def bind (t : Timeline) (name : ChannelName) (trace : Option Trace) : List Event × Timeline :=
  (t.setChannel name ((t.channel name).bind trace t.now)).catchUp

def setLooping (t : Timeline) (name : ChannelName) (looping : Bool) : Timeline :=
  t.setChannel name { t.channel name with looping := looping }

def setAudio (t : Timeline) (audio : AudioSettings) : Timeline := { t with audio := audio }

def setSink (t : Timeline) (sink : Sink) : Timeline := { t with sink := sink }

/-- Whether an advance to a target has left something due. -/
def hasBacklog (t : Timeline) (target : Nat) : Bool := t.nextDeadline?.any (· ≤ target)

end Timeline
end TracePlayback
