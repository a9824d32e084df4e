import TracePlayback.Path
import TracePlayback.Settings.Basic
import TracePlayback.Text.Quoted

/-!
# The command line

Arguments fall into groups from left to right: an option that names a file takes the next argument
whatever it looks like, an option with a number takes one that spells a number, and a flag stands
alone. Of several groups for one option the last counts. A graph must be named.
-/
namespace TracePlayback

/-- What the replay is asked to do. -/
structure CommandLine where
  graph : Path
  live : Option Path := none
  ghost : Option Path := none
  config : Option Path := none
  liveStepMs : Option Nat := none
  untilMs : Option Nat := none
  looping : Bool := false
  realtime : Bool := false
  mute : Bool := false
  deriving DecidableEq

namespace CommandLine

/-- An option that names a file. -/
inductive FileOption where
  | graph
  | live
  | ghost
  | config
  deriving DecidableEq, Repr

/-- An option with a number of milliseconds. -/
inductive NumberOption where
  | liveStepMs
  | untilMs
  deriving DecidableEq, Repr

/-- An option without a value. -/
inductive Flag where
  | looping
  | realtime
  | mute
  deriving DecidableEq, Repr

inductive Switch where
  | file (o : FileOption)
  | number (o : NumberOption)
  | flag (f : Flag)
  deriving DecidableEq, Repr

/-- An option with its value. -/
inductive Group where
  | file (o : FileOption) (path : Path)
  | number (o : NumberOption) (n : Nat)
  | flag (f : Flag)
  deriving DecidableEq, Repr

namespace Switch

def name : Switch → String
  | .file .graph => "--graph"
  | .file .live => "--live"
  | .file .ghost => "--ghost"
  | .file .config => "--config"
  | .number .liveStepMs => "--live-step-ms"
  | .number .untilMs => "--until-ms"
  | .flag .looping => "--loop"
  | .flag .realtime => "--realtime"
  | .flag .mute => "--mute"

def all : List Switch := [.file .graph, .file .live, .file .ghost, .file .config,
  .number .liveStepMs, .number .untilMs, .flag .looping, .flag .realtime, .flag .mute]

def ofArgument? (argument : Bytes) : Option Switch :=
  all.find? fun s => s.name.toUTF8.toList = argument

end Switch

inductive Error where
  /-- An option that names a file is the last argument. -/
  | noPath (o : FileOption)
  /-- An option with a number is the last argument. -/
  | noNumber (o : NumberOption)
  /-- The value of an option is no number. -/
  | invalidNumber (o : NumberOption) (value : Bytes)
  /-- An argument is no option. -/
  | unknown (argument : Bytes)
  /-- No graph is named. -/
  | noGraph
  deriving DecidableEq, Repr

namespace Error

def message : Error → String
  | .noPath o => (Switch.file o).name ++ " expects a path"
  | .noNumber o => (Switch.number o).name ++ " expects a number of milliseconds"
  | .invalidNumber o value =>
    "invalid value for " ++ (Switch.number o).name ++ ": " ++ (Path.mk value).display
  | .unknown argument => "unknown argument: " ++ Text.quoteBytes argument
  | .noGraph => "--graph is required"

end Error

def maxMs : Nat := 0xFFFFFFFFFFFFFFFF

/-- The value of a byte that is a decimal digit. -/
def digit? (b : UInt8) : Option Nat :=
  if 48 ≤ b.toNat ∧ b.toNat ≤ 57 then some (b.toNat - 48) else none

/-- The number that an argument spells: decimal digits, possibly after a plus. -/
def number? (argument : Bytes) : Option Nat := do
  let digits :=
    match argument with
    | 43 :: rest => rest
    | rest => rest
  let ds ← digits.mapM digit?
  let n := ds.foldl (fun n d => n * 10 + d) 0
  if ds.isEmpty ∨ maxMs < n then none else some n

def groups : List Bytes → Except Error (List Group)
  | [] => pure []
  | argument :: rest =>
    match Switch.ofArgument? argument with
    | none => throw (.unknown argument)
    | some (.flag f) => return .flag f :: (← groups rest)
    | some (.file o) =>
      match rest with
      | [] => throw (.noPath o)
      | value :: rest => return .file o ⟨value⟩ :: (← groups rest)
    | some (.number o) =>
      match rest with
      | [] => throw (.noNumber o)
      | value :: rest =>
        match number? value with
        | none => throw (.invalidNumber o value)
        | some n => return .number o n :: (← groups rest)

/-- Takes a group in; a later one overrules it. -/
def take (c : CommandLine) : Group → CommandLine
  | .file .graph path => { c with graph := path }
  | .file .live path => { c with live := some path }
  | .file .ghost path => { c with ghost := some path }
  | .file .config path => { c with config := some path }
  | .number .liveStepMs n => { c with liveStepMs := some n }
  | .number .untilMs n => { c with untilMs := some n }
  | .flag .looping => { c with looping := true }
  | .flag .realtime => { c with realtime := true }
  | .flag .mute => { c with mute := true }

/-- Whether a group names the graph. -/
def namesGraph : Group → Bool
  | .file .graph _ => true
  | _ => false

def parse (arguments : List Bytes) : Except Error CommandLine := do
  let gs ← groups arguments
  if gs.any namesGraph then pure (gs.foldl take { graph := ⟨[]⟩ }) else throw .noGraph

/-! ## What it changes -/

/-- The settings with what the command line overrules. -/
def applyTo (c : CommandLine) (s : Settings) : Settings :=
  { s with
    playback := { s.playback with
      liveStepMs := c.liveStepMs.getD s.playback.liveStepMs
      loopLive := s.playback.loopLive || c.looping
      loopGhost := s.playback.loopGhost || c.looping }
    audio := { s.audio with enabled := s.audio.enabled && !c.mute } }

/-- How long a replay with a channel that loops goes on, unless it is told. -/
def loopHorizonMs : Nat := 30000

/-- The time limit of a replay with the given settings, if it has one. -/
def horizonMs (c : CommandLine) (s : Settings) : Option Nat :=
  match c.untilMs with
  | some ms => some ms
  | none => if s.playback.loopLive || s.playback.loopGhost then some loopHorizonMs else none

end CommandLine
end TracePlayback
