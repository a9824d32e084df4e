import TracePlayback.CommandLine
import TracePlayback.Engine
import TracePlayback.Feed.Wire
import TracePlayback.Replay.Note

/-!
# Jobs

A job is what a command line asks a replay to do, with all files read: settings, a graph, and the
traces to play. Files are read in a fixed order, and the first that cannot be used ends the
preparation. A settings file that is named must be there; the user's own need not.
-/
namespace TracePlayback

/-- What a file of a job holds. -/
inductive Material where
  | graph
  | liveTrace
  | ghostTrace
  deriving DecidableEq, Repr

namespace Material

def name : Material → String
  | .graph => "graph"
  | .liveTrace => "live trace"
  | .ghostTrace => "ghost trace"

end Material

inductive ReplayError where
  | commandLine (e : CommandLine.Error)
  | settings (e : SettingsError)
  /-- A file is missing or is not text. -/
  | unreadable (path : Path)
  /-- A file does not hold what it should. -/
  | unparsable (what : Material) (path : Path)
  | engine (e : EngineError)
  deriving DecidableEq, Repr

namespace ReplayError

def message : ReplayError → String
  | .commandLine e => e.message
  | .settings e => e.message
  | .unreadable path => "read " ++ path.display
  | .unparsable what path => "parse " ++ what.name ++ " " ++ path.display
  | .engine e => e.message

end ReplayError

structure Job where
  settings : Settings
  /-- The time at which the replay stops at the latest, in milliseconds. -/
  limit : Option Nat
  /-- Whether frames take as long as they play. -/
  realtime : Bool
  graph : GraphInput
  ghost : Option GhostTrace
  live : Option LiveTrace

namespace Job

/-- What the engine is told at the start. -/
def feeds (j : Job) : List Feed :=
  [.graph j.graph] ++ (j.ghost.map Feed.ghostTrace).toList ++ (j.live.map Feed.liveTrace).toList

/-! ## Preparation -/

/-- Reads a file that holds some JSON value. -/
def readMaterial {α : Type} (read? : Path → Option Bytes) (what : Material)
    (ofJson : List Char → Json.Result α) (path : Path) : Except ReplayError α :=
  match (read? path).bind Text.Utf8.decode? with
  | none => throw (.unreadable path)
  | some text =>
    match ofJson text with
    | .ok a => pure a
    | .error _ => throw (.unparsable what path)

/-- The settings of the file that a command line names, or of the user's file, or the defaults. -/
def readSettings (read? : Path → Option Bytes) (userFile : Option Path) (named : Option Path) :
    Except SettingsError (List Note × Settings) :=
  match named with
  | some path => do return ([], ← Settings.load read? path)
  | none =>
    match userFile with
    | none => pure ([], {})
    | some path =>
      match Settings.load read? path with
      | .ok s => pure ([], s)
      | .error e => pure ([.defaultSettings path e], {})

/-- The job of a command line, its settings given. -/
def ofCommandLine (read? : Path → Option Bytes) (c : CommandLine) (s : Settings) :
    Except ReplayError Job := do
  let graph ← readMaterial read? .graph GraphInput.ofJson c.graph
  let live ← c.live.mapM (readMaterial read? .liveTrace LiveTrace.ofJson)
  let ghost ← c.ghost.mapM (readMaterial read? .ghostTrace GhostTrace.ofJson)
  let settings := c.applyTo s
  return {
    settings := settings
    limit := c.horizonMs settings
    realtime := c.realtime
    graph := graph
    ghost := ghost
    live := live }

/-- The job that arguments describe, and what is noted on the way. -/
def prepare (read? : Path → Option Bytes) (userFile : Option Path) (arguments : List Bytes) :
    List Note × Except ReplayError Job :=
  match CommandLine.parse arguments with
  | .error e => ([], throw (.commandLine e))
  | .ok c =>
    match readSettings read? userFile c.config with
    | .error e => ([], throw (.settings e))
    | .ok (notes, s) => (notes, ofCommandLine read? c s)

end Job
end TracePlayback
