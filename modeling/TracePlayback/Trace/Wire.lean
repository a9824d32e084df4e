import TracePlayback.Trace.Basic
import TracePlayback.Json.Decode
import TracePlayback.Json.Writer

/-!
# Traces in JSON

A live trace is a list of lines and frames, and is written as a list of lines. A ghost trace is a
list of objects with `line` and `timestamp` (or `timestampMs`).
-/
namespace TracePlayback

open Json

namespace ChannelName

def known : List (String × ChannelName) := [("live", .live), ("ghost", .ghost)]

def read : Reading → Doc → Result ChannelName := Doc.readName known

def toDoc (c : ChannelName) : Doc := .ofString c.name

end ChannelName

namespace TraceFrame

/-- A frame whose members are still being read. -/
structure Partial where
  line : Option Int64 := none
  event : Option (Option String) := none
  error : Option (Option String) := none

/-- The members of a frame. The tracer leaves the line out of a frame that only carries an error. -/
def record : Record Partial TraceFrame where
  title := "struct TraceFrame"
  fields := [
    ⟨"line", [], (·.line.isSome), fun _ d s => return { s with line := some (← d.readInt64) }⟩,
    ⟨"event", [], (·.event.isSome),
      fun _ d s => return { s with event := some (← d.readOption Doc.readText) }⟩,
    ⟨"error", [], (·.error.isSome),
      fun _ d s => return { s with error := some (← d.readOption Doc.readText) }⟩]
  empty := {}
  finish s := .ok ⟨s.line.getD (-1), s.event.getD none, s.error.getD none⟩

def toDoc (f : TraceFrame) : Doc :=
  .ofMembers ([("line", .ofInt f.line.toInt)] ++
    (f.event.toList.map fun event => ("event", .ofString event)) ++
    f.error.toList.map fun error => ("error", .ofString error))

end TraceFrame

namespace LiveEntry

/-- The entry that a buffered document spells. -/
def ofDoc? (r : Reading) (d : Doc) : Option LiveEntry :=
  match d.readInt64 with
  | .ok n => some (.line n)
  | .error _ => (TraceFrame.record.read r d).toOption.map .frame

def read (r : Reading) (d : Doc) : Result LiveEntry := do
  d.buffer r
  match ofDoc? { r with buffered := true } d with
  | some entry => pure entry
  | none => throw (.mismatch (.alternatives "LiveEntry"))

def toDoc : LiveEntry → Doc
  | .line n => .ofInt n.toInt
  | .frame f => f.toDoc

def ofJson (text : List Char) : Result LiveEntry := decode read text

end LiveEntry

namespace LiveTrace

def read (r : Reading) (d : Doc) : Result LiveTrace :=
  return .ofEntries (← Doc.readList LiveEntry.read r d)

def toDoc (t : LiveTrace) : Doc := .ofList (t.lines.toList.map fun n => .ofInt n.toInt)

def ofJson (text : List Char) : Result LiveTrace := decode read text

end LiveTrace

namespace GhostEntry

structure Partial where
  line : Option Int64 := none
  timestamp : Option Int64 := none

def record : Record Partial GhostEntry where
  title := "struct GhostEntry"
  fields := [
    ⟨"line", [], (·.line.isSome), fun _ d s => return { s with line := some (← d.readInt64) }⟩,
    ⟨"timestamp", ["timestampMs"], (·.timestamp.isSome),
      fun _ d s => return { s with timestamp := some (← d.readInt64) }⟩]
  empty := {}
  finish s :=
    match s.line, s.timestamp with
    | none, _ => .error "line"
    | some _, none => .error "timestamp"
    | some line, some timestamp => .ok ⟨line, timestamp⟩

/-- Reads an entry. -/
def read : Reading → Doc → Result GhostEntry := record.read

/-- The entry in JSON. -/
def toDoc (e : GhostEntry) : Doc :=
  .ofMembers [("line", .ofInt e.line.toInt), ("timestamp", .ofInt e.timestamp.toInt)]

end GhostEntry

namespace GhostTrace

def read (r : Reading) (d : Doc) : Result GhostTrace :=
  return ⟨(← Doc.readList GhostEntry.read r d).toArray⟩

/-- The trace in JSON. -/
def toDoc (t : GhostTrace) : Doc := .ofList (t.entries.toList.map GhostEntry.toDoc)

def ofJson (text : List Char) : Result GhostTrace := decode read text

end GhostTrace
end TracePlayback
