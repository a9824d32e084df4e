import TracePlayback.Random.ChaCha
import TracePlayback.Replay.Basic

/-!
# The command

Reads the files that the command line names, plays the replay, and prints each note as it comes.
-/
namespace TracePlayback.Command

def readFile? (p : Path) : IO (Option Bytes) := do
  try
    let contents ← IO.FS.readBinFile p.display
    return some contents.toList
  catch _ => return none

/-- The user's settings file: below the directory for configuration, which must be absolute, or else
below the home directory. -/
def userFile? : IO (Option Path) := do
  match ← IO.getEnv "XDG_CONFIG_HOME" with
  | some home =>
    if home.startsWith "/" then return some (Settings.userPath home)
  | none => pure ()
  return (← IO.getEnv "HOME").map fun home => Settings.userPath (home ++ "/.config")

/-- All files that a command line speaks of, with their contents. -/
def readFiles (userFile : Option Path) (arguments : List Bytes) :
    IO (List (Path × Option Bytes)) := do
  match CommandLine.parse arguments with
  | .error _ => return []
  | .ok c =>
    let settings := c.config.orElse fun _ => userFile
    let paths := settings.toList ++ [c.graph] ++ c.live.toList ++ c.ghost.toList
    paths.mapM fun p => return (p, ← readFile? p)

/-- A source of random numbers that no one can foresee. -/
def entropy : IO ChaCha := do
  let bytes ← IO.getRandomBytes 8
  return .ofSeed (bytes.foldl (fun seed b => seed * 256 + b.toUInt64) 0)

def print (f : NoteFilter) (notes : List Note) : IO Unit := do
  for n in notes do
    if f.admits n then IO.println n.line

/-- Plays frame by frame and prints what each of them notes. -/
def play (f : NoteFilter) (realtime : Bool) : Nat → Replay ChaCha → IO (Ending × Replay ChaCha)
  | 0, r => return (.outOfFrames, r)
  | frames + 1, r => do
    print f r.log.toList
    let r := { r with log := #[] }
    match r.next with
    | .error ending => return (ending, r)
    | .ok r =>
      if realtime then IO.sleep Replay.frameMs.toUInt32
      play f realtime frames r

def fail (e : ReplayError) : IO UInt32 := do
  IO.eprintln ("Error: " ++ e.message)
  return 1

/-- Runs the command with its arguments; the result is the exit code. -/
def run (arguments : List String) : IO UInt32 := do
  let arguments := arguments.map fun a => a.toUTF8.toList
  let shown := NoteFilter.ofText? (← IO.getEnv "RUST_LOG")
  let userFile ← userFile?
  let files ← readFiles userFile arguments
  let read? (p : Path) : Option Bytes := (files.lookup p).join
  let (notes, outcome) := Job.prepare read? userFile arguments
  print shown notes
  match outcome with
  | .error e => fail e
  | .ok job =>
    let start := Replay.ofJob job (← entropy)
    let (ending, r) ← play shown job.realtime start.maxFrames start
    match r.close ending with
    | .error e => fail e
    | .ok farewell =>
      print shown farewell
      return 0

end TracePlayback.Command

def main (arguments : List String) : IO UInt32 := TracePlayback.Command.run arguments
