import TracePlayback.Decimal.Notation
import TracePlayback.Playback.Channel
import TracePlayback.Settings.File
import TracePlayback.Text.Quoted
import TracePlayback.Tone
import TracePlayback.Vec3

/-!
# Notes

What a replay reports while it runs. A note matters to some degree, comes from some part of the
program, and as a line of a log shows both, its message, and the values that belong to it by name.
-/
namespace TracePlayback

inductive Level where
  | error
  | warn
  | info
  | debug
  | trace
  deriving DecidableEq, Repr

namespace Level

def name : Level → String
  | .error => "ERROR"
  | .warn => "WARN"
  | .info => "INFO"
  | .debug => "DEBUG"
  | .trace => "TRACE"

/-- The level's place, the more important the lower. -/
def rank : Level → Nat
  | .error => 1
  | .warn => 2
  | .info => 3
  | .debug => 4
  | .trace => 5

end Level

inductive Origin where
  | settings
  | graph
  | layout
  | engine
  | channel
  | timeline
  | replay
  deriving DecidableEq, Repr

namespace Origin

def name : Origin → String
  | .settings => "tracegraph_engine::util::config"
  | .graph => "tracegraph_engine::graph::model"
  | .layout => "tracegraph_engine::graph::layout"
  | .engine => "tracegraph_engine::graph::state"
  | .channel => "tracegraph_engine::playback::channel"
  | .timeline => "tracegraph_engine::playback::scheduler"
  | .replay => "tracegraph_replay"

end Origin

inductive Note where
  /-- A settings file that nobody asked for could not be used. -/
  | defaultSettings (path : Path) (error : SettingsError)
  /-- A graph reports an error instead of nodes. -/
  | failedAnalysis (error : String)
  /-- A node uses an id again. -/
  | repeatedId (id : NodeId)
  /-- Links have an end that is no node. -/
  | danglingLinks (count : Nat)
  | graphLoaded (nodes links : Nat)
  /-- The layout follows another graph; it had `kept` of its nodes before. -/
  | layoutSynced (nodes kept : Nat)
  | traceBound (channel : ChannelName) (length : Nat)
  | channelFinished (channel : ChannelName) (time : Nat)
  /-- An advance stopped after many steps with another one due. -/
  | backlog (steps due target : Nat)
  | event (e : Event)
  | tone (t : Tone)
  /-- The replay stops before its channels have finished. -/
  | timeLimit (ms : Nat)
  | finalPosition (node : NodeId) (position : Vec3)
  | replayFinished (events elapsedMs : Nat) (energy : Float32)
  | audioDrained (tones : Nat)
  deriving DecidableEq

namespace Note

def level : Note → Level
  | .failedAnalysis _ | .backlog .. | .timeLimit _ => .warn
  | .graphLoaded .. | .event _ | .tone _ | .replayFinished .. | .audioDrained _ => .info
  | .defaultSettings .. | .repeatedId _ | .danglingLinks _ | .layoutSynced .. | .traceBound ..
  | .channelFinished .. | .finalPosition .. => .debug

def origin : Note → Origin
  | .defaultSettings .. => .settings
  | .failedAnalysis _ | .repeatedId _ | .danglingLinks _ => .graph
  | .graphLoaded .. => .engine
  | .layoutSynced .. => .layout
  | .traceBound .. | .backlog .. => .timeline
  | .channelFinished .. => .channel
  | .event _ | .tone _ | .timeLimit _ | .finalPosition .. | .replayFinished .. | .audioDrained _ =>
    .replay

def message : Note → String
  | .defaultSettings .. => "using default engine config"
  | .failedAnalysis _ => "analysis reported an error; using empty graph"
  | .repeatedId _ => "duplicate node id ignored"
  | .danglingLinks _ => "dropped links with unknown endpoints"
  | .graphLoaded .. => "graph loaded"
  | .layoutSynced .. => "layout synced"
  | .traceBound .. => "trace bound"
  | .channelFinished .. => "channel finished"
  | .backlog .. => "playback backlog deferred"
  | .event ⟨_, _, .visit ..⟩ => "visit"
  | .event ⟨_, _, .traverse ..⟩ => "traverse"
  | .event ⟨_, _, .finished⟩ => "finished"
  | .tone _ => "tone"
  | .timeLimit _ => "stopping at time limit"
  | .finalPosition .. => "final position"
  | .replayFinished .. => "replay finished"
  | .audioDrained _ => "audio drained"

/-- Numbers have all their places from 0.0001 up to below 10^16, and a power of ten beyond; a tie goes
away from zero. -/
def format : Decimal.Format := ⟨.away, fun power => -4 ≤ power ∧ power ≤ 15, false, "NaN"⟩

def single (x : Float32) : String := Decimal.write format (widen x)

/-- The values of a step. -/
def stepValues : Step → List (String × String)
  | .visit node kind revisit =>
    [("node", node.text), ("kind", Text.quote kind.name.toList), ("revisit", toString revisit)]
  | .traverse source target linked =>
    [("from", source.text), ("to", target.text), ("linked", toString linked)]
  | .finished => []

def values : Note → List (String × String)
  | .defaultSettings path error => [("path", path.display), ("error", error.message)]
  | .failedAnalysis error => [("error", error)]
  | .repeatedId id => [("id", id.text)]
  | .danglingLinks count => [("dropped", toString count)]
  | .graphLoaded nodes links => [("nodes", toString nodes), ("links", toString links)]
  | .layoutSynced nodes kept => [("nodes", toString nodes), ("kept", toString kept)]
  | .traceBound channel length => [("channel", channel.name), ("len", toString length)]
  | .channelFinished channel time => [("channel", channel.name), ("at", toString time)]
  | .backlog steps due target =>
    [("steps", toString steps), ("due", toString due), ("target_ms", toString target)]
  | .event e => [("channel", e.channel.name), ("at_ms", toString e.time)] ++ stepValues e.step
  | .tone t =>
    [("frequency", single t.frequency), ("duration_ms", toString t.durationMs),
      ("waveform", t.waveform.name)]
  | .timeLimit ms => [("limit_ms", toString ms)]
  | .finalPosition node p =>
    [("node", node.text), ("x", single p.x), ("y", single p.y), ("z", single p.z)]
  | .replayFinished events elapsedMs energy =>
    [("events", toString events), ("elapsed_ms", toString elapsedMs), ("energy", single energy)]
  | .audioDrained tones => [("tones", toString tones)]

/-- A note as a line of a log, with some of its values. -/
def lineWith (n : Note) (values : List (String × String)) : String :=
  n.level.name ++ " " ++ n.origin.name ++ ": " ++ n.message ++
    String.join (values.map fun v => " " ++ v.1 ++ "=" ++ v.2)

def line (n : Note) : String := n.lineWith n.values

end Note
end TracePlayback
