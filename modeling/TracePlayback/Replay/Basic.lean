import TracePlayback.Host
import TracePlayback.Replay.Filter
import TracePlayback.Replay.Job

/-!
# Replays

A replay plays the traces of a job frame by frame, as a host would that draws nothing, and notes
what it shows. It ends when no channel has a step pending, or at its time limit, which is looked at
between frames.
-/
namespace TracePlayback

structure Replay (γ : Type) where
  engine : Engine γ
  limit : Option Nat
  /-- The time played so far, in milliseconds. -/
  elapsedMs : Nat := 0
  /-- How many events were shown. -/
  events : Nat := 0
  /-- How many tones were sounded. -/
  tones : Nat := 0
  log : Array Note := #[]

/-- Why a replay has ended. -/
inductive Ending where
  /-- No channel has a step pending. -/
  | idle
  /-- The time limit is reached. -/
  | timeLimit (ms : Nat)
  /-- The engine cannot go on. -/
  | failed (e : EngineError)
  /-- All frames that it could need are played. -/
  | outOfFrames
  deriving DecidableEq, Repr

namespace Replay

variable {γ : Type}

def frameMs : Nat := 16

def frameNanos : Nat := frameMs * 1000000

/-! ## Notes -/

/-- What a timeline notes while it advances: channels that finish, and a backlog. -/
def advanceNotes (events : List Event) (t : Timeline) : List Note :=
  events.filterMap (fun e =>
    if e.step = .finished then some (.channelFinished e.channel e.time) else none) ++
  match t.nextDeadline? with
  | some due => if due ≤ t.now then [.backlog Timeline.maxSteps due t.now] else []
  | none => []

/-- What is noted about a graph that a layout is retargeted to. -/
def graphNotes (input : GraphInput) (l : Layout) : List Note :=
  let intake := Graph.intake input
  (input.error.map Note.failedAnalysis).toList ++
  intake.repeatedIds.map Note.repeatedId ++
  (if intake.dangling = 0 then [] else [.danglingLinks intake.dangling]) ++
  [.graphLoaded intake.graph.size intake.graph.links.length,
    .layoutSynced intake.graph.size (l.known intake.graph)]

/-- What is noted when an engine takes in a feed. -/
def feedNotes (e : Engine γ) : Feed → List Note
  | .graph input => graphNotes input e.layout
  | .liveTrace t => [.traceBound .live (Trace.live t).length]
  | .ghostTrace t => [.traceBound .ghost (Trace.ghost t).length]
  | .clear channel => [.traceBound channel 0]

/-- Logs what an operation of the engine shows and sounds, after some notes. -/
def record (r : Replay γ) (notes : List Note) (shown : List Event × Engine γ) : Replay γ :=
  let (events, engine) := shown
  let sounded := engine.timeline.sink.tones
  { r with
    engine := engine.setSink engine.timeline.sink.rewind
    events := r.events + events.length
    tones := r.tones + sounded.length
    log := r.log ++ notes ++ advanceNotes events engine.timeline ++ events.map Note.event ++
      sounded.map Note.tone }

/-! ## Playing -/

variable [Generator γ]

def feed (r : Replay γ) (f : Feed) : Replay γ := r.record (feedNotes r.engine f) (r.engine.apply f)

/-- The replay of a job at time zero. -/
def ofJob (j : Job) (random : γ) : Replay γ :=
  j.feeds.foldl feed { engine := .new j.settings (.recorder #[]) random, limit := j.limit }

/-- Plays a frame, if the replay has not ended. -/
def next (r : Replay γ) : Except Ending (Replay γ) :=
  if r.engine.timeline.isIdle then throw .idle
  else
    match r.limit.filter (· ≤ r.elapsedMs) with
    | some ms => throw (.timeLimit ms)
    | none =>
      match (r.engine.tickFrame (Host.seconds frameNanos)).advancePlayback frameNanos with
      | .error e => throw (.failed e)
      | .ok shown => pure { r.record [] shown with elapsedMs := r.elapsedMs + frameMs }

/-- Plays at most some frames: how the replay ends, and its last state. -/
def play : Nat → Replay γ → Ending × Replay γ
  | 0, r => (.outOfFrames, r)
  | frames + 1, r =>
    match next r with
    | .error ending => (ending, r)
    | .ok r => play frames r

omit [Generator γ]

/-- More frames than a replay can need: they take the clock to its last millisecond, and leave one
frame for every step that can still be due then. -/
def maxFrames (r : Replay γ) : Nat :=
  Clock.last / frameMs + r.engine.timeline.live.length + r.engine.timeline.ghost.length + 4

/-- What is noted at the end. -/
def close (r : Replay γ) (ending : Ending) : Except ReplayError (List Note) :=
  let farewell :=
    r.engine.layout.bodies.toList.map (fun b => Note.finalPosition b.id b.position) ++
    [.replayFinished r.events r.elapsedMs r.engine.layout.kineticEnergy, .audioDrained r.tones]
  match ending with
  | .timeLimit ms => pure (.timeLimit ms :: farewell)
  | .failed e => throw (.engine e)
  | .idle | .outOfFrames => pure farewell

end Replay

/-! ## Reports -/

/-- All that a replay has to say, and whether it failed. -/
structure Report where
  notes : List Note
  error : Option ReplayError := none
  deriving DecidableEq

namespace Report

def exitCode (r : Report) : Nat := if r.error.isSome then 1 else 0

/-- What is said about a failure. -/
def errorText? (r : Report) : Option String := r.error.map fun e => "Error: " ++ e.message

/-- The notes that a filter admits. -/
def shown (r : Report) (f : NoteFilter) : List Note := r.notes.filter f.admits

/-- The replay that arguments ask for, from the first file to the last note. -/
def ofArguments {γ : Type} [Generator γ] (read? : Path → Option Bytes) (userFile : Option Path)
    (random : γ) (arguments : List Bytes) : Report :=
  match Job.prepare read? userFile arguments with
  | (notes, .error e) => ⟨notes, some e⟩
  | (notes, .ok job) =>
    let start := Replay.ofJob job random
    let (ending, r) := start.play start.maxFrames
    let notes := notes ++ r.log.toList
    match r.close ending with
    | .error e => ⟨notes, some e⟩
    | .ok farewell => ⟨notes ++ farewell, none⟩

end Report
end TracePlayback
