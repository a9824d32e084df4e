import TracePlayback.Graph.Input

/-!
# Traces and feeds

A trace is the list of source lines that a run of the program has visited. A live trace only has the
lines and is played at a steady pace; a ghost trace is a recording with the time of every visit.
A feed tells the engine of a new graph or a new trace.
-/
namespace TracePlayback

/-- The two channels that play traces. -/
inductive ChannelName where
  | live
  | ghost
  deriving DecidableEq, Repr

namespace ChannelName

def name : ChannelName → String
  | .live => "live"
  | .ghost => "ghost"

end ChannelName

/-- A frame of the tracer. A frame that only carries an error has the line -1. -/
structure TraceFrame where
  line : Int64
  event : Option String
  error : Option String
  deriving DecidableEq

/-- An entry of a live trace: a bare line, or a frame. -/
inductive LiveEntry where
  | line (n : Int64)
  | frame (f : TraceFrame)
  deriving DecidableEq

namespace LiveEntry

def toLine : LiveEntry → Int64
  | .line n => n
  | .frame f => f.line

end LiveEntry

/-- Lines in the order of their visits. -/
structure LiveTrace where
  lines : Array Int64
  deriving DecidableEq

namespace LiveTrace

def ofEntries (entries : List LiveEntry) : LiveTrace := ⟨(entries.map LiveEntry.toLine).toArray⟩

end LiveTrace

/-- A recorded visit and its time in milliseconds. -/
structure GhostEntry where
  line : Int64
  timestamp : Int64
  deriving DecidableEq

/-- Recorded visits in order. -/
structure GhostTrace where
  entries : Array GhostEntry
  deriving DecidableEq

inductive Trace where
  | live (t : LiveTrace)
  | ghost (t : GhostTrace)
  deriving DecidableEq

namespace Trace

def length : Trace → Nat
  | .live t => t.lines.size
  | .ghost t => t.entries.size

/-- The line of an entry. -/
def lineAt? (t : Trace) (i : Nat) : Option Int64 :=
  match t with
  | .live t => t.lines[i]?
  | .ghost t => t.entries[i]?.map GhostEntry.line

end Trace

/-- A message to the engine. -/
inductive Feed where
  /-- A new graph. -/
  | graph (input : GraphInput)
  /-- A trace for the live channel. -/
  | liveTrace (trace : LiveTrace)
  /-- A trace for the ghost channel. -/
  | ghostTrace (trace : GhostTrace)
  /-- No trace any more for the channel. -/
  | clear (channel : ChannelName)
  deriving DecidableEq

end TracePlayback
