import TracePlayback.Graph.Basic
import TracePlayback.Settings.Basic
import TracePlayback.Trace.Basic

/-!
# Channels

A channel plays one trace against a graph, one entry each time its timer runs out. The step that is
pending lives in the channel itself: giving the channel another trace, or starting it over, cancels
it. A step happens at the time it was due, however late it is run. What it shows is an event: a node
is visited, the play moves from one node to another, the trace has come to its end.
-/
namespace TracePlayback

/-- What one step of a channel shows. -/
inductive Step where
  /-- An entry landed on a node; `revisit` if the last entry that landed did so on the same node. -/
  | visit (node : NodeId) (kind : NodeKind) (revisit : Bool)
  /-- The play moved between different nodes; `linked` if the graph joins them. -/
  | traverse (source target : NodeId) (linked : Bool)
  /-- The trace is played to its end. -/
  | finished
  deriving DecidableEq, Repr

/-- What a channel shows at a time in milliseconds. -/
structure Event where
  channel : ChannelName
  time : Nat
  step : Step
  deriving DecidableEq, Repr

namespace Clock

/-- The last millisecond that the clock can show. -/
def last : Nat := 0xFFFFFFFFFFFFFFFF

/-- The time that lies `delay` after `time`, as far as the clock goes. -/
def after (time delay : Nat) : Nat := min (time + delay) last

end Clock

namespace Trace

/-- The time between two recorded visits; none if the second is not later. -/
def gap (a b : GhostEntry) : Nat :=
  min (b.timestamp.toInt - a.timestamp.toInt).toNat 0x7FFFFFFFFFFFFFFF

/-- The delay between an entry and what follows it, never zero, so that even an endless loop moves
the time on. -/
def delayAfter (s : PlaybackSettings) (t : Trace) (i : Nat) : Nat :=
  max 1 <|
    match t with
    | .live _ => s.liveStepMs
    | .ghost t =>
      match t.entries[i]?, t.entries[i + 1]? with
      | some a, some b => max (gap a b) s.ghostMinDelayMs
      | _, _ => s.ghostTailMs

end Trace

/-- The link that a channel is on: the nodes before and after the last move. -/
structure ActiveLink where
  source : NodeId
  target : NodeId
  deriving DecidableEq, Repr

structure Channel where
  trace : Option Trace := none
  looping : Bool := false
  /-- The next entry to play. -/
  cursor : Nat := 0
  activeNode : Option NodeId := none
  activeLink : Option ActiveLink := none
  /-- When the last step was due. -/
  lastAdvance : Option Nat := none
  /-- When the pending step is due. -/
  due : Option Nat := none
  finished : Bool := false
  deriving DecidableEq

namespace Channel

def length (c : Channel) : Nat := (c.trace.map Trace.length).getD 0

/-- Drops the pending step. -/
def cancel (c : Channel) : Channel := { c with due := none }

/-- Starts the trace over at a time. -/
def restart (c : Channel) (now : Nat) : Channel :=
  { trace := c.trace, looping := c.looping, due := c.trace.map fun _ => now }

def bind (c : Channel) (trace : Option Trace) (now : Nat) : Channel :=
  { c with trace := trace }.restart now

/-- The channel after it has shown a node, and what that shows. -/
def land (c : Channel) (g : Graph) (node : Node) : List Step × Channel :=
  let revisit := c.activeNode = some node.id
  let visit := Step.visit node.id node.kind revisit
  let moved := { c with activeNode := some node.id }
  match c.activeNode with
  | some previous =>
    if revisit then ([visit], moved)
    else ([visit, .traverse previous node.id (g.isLinked previous node.id)],
      { moved with activeLink := some ⟨previous, node.id⟩ })
  | none => ([visit], moved)

/-- Plays an entry at a time: shows its node, if its line has one, and sets the timer. -/
def play (c : Channel) (s : PlaybackSettings) (g : Graph) (trace : Trace) (i time : Nat) :
    List Step × Channel :=
  let (steps, c) :=
    match (trace.lineAt? i).bind g.nodeForLine? with
    | some node => c.land g node
    | none => ([], c)
  (steps, { c with
    cursor := i + 1, lastAdvance := some time, due := some (Clock.after time (trace.delayAfter s i)) })

/-- The end of the trace at a time. -/
def finish (c : Channel) (time : Nat) : List Step × Channel :=
  ([.finished], { c with
    activeNode := none, activeLink := none, finished := true, lastAdvance := some time, due := none })

/-- Runs the pending step if it is due by `now`: when it was due, what it shows, and the channel
afterwards. -/
def fire? (c : Channel) (s : PlaybackSettings) (g : Graph) (now : Nat) :
    Option (Nat × List Step × Channel) := do
  let time ← c.due
  let trace ← c.trace
  if now < time then none
  else if c.cursor < trace.length then some (time, c.play s g trace c.cursor time)
  else if c.looping ∧ 0 < trace.length then some (time, c.play s g trace 0 time)
  else some (time, c.finish time)

end Channel
end TracePlayback
