import TracePlayback.Decimal.Notation
import TracePlayback.Settings.Basic
import TracePlayback.Toml.Document

/-!
# Settings in TOML

A document has a table for each group of settings. Whatever it leaves out has its default, and
whatever it adds is ignored. A group may also be given as a list of its settings in order.

Reading takes an integer where a float is expected, but not the other way round. Writing gives all
settings; integers beyond 64 bits with sign cannot be written.
-/
namespace TracePlayback

open Toml

namespace Settings

/-! ## Reading -/

/-- A non-negative integer. -/
def readNat? : Value → Option Nat
  | .integer n => if 0 ≤ n then some n.toNat else none
  | _ => none

/-- A single: an integer or float, rounded. -/
def readSingle? : Value → Option Float32
  | .integer n => some (Float32.ofInt n)
  | .float x => some (narrow x)
  | _ => none

def readBool? : Value → Option Bool
  | .bool b => some b
  | _ => none

/-- A setting: its key, and how its value goes into a group of settings. -/
structure Slot (σ : Type) where
  key : String
  set? : Value → σ → Option σ

def readEntries {σ : Type} (slots : List (Slot σ)) : List (String × Value) → σ → Option σ
  | [], s => some s
  | (key, value) :: rest, s =>
    match slots.find? (·.key = key) with
    | some slot => do readEntries slots rest (← slot.set? value s)
    | none => readEntries slots rest s

/-- Reads a list of values into a group of settings, in the order of the settings. -/
def readItems {σ : Type} : List (Slot σ) → List Value → σ → Option σ
  | slot :: slots, value :: rest, s => do readItems slots rest (← slot.set? value s)
  | _, _, s => some s

/-- Reads a group of settings. A date or time has no key that is known. -/
def readGroup? {σ : Type} (slots : List (Slot σ)) (defaults : σ) : Value → Option σ
  | .table entries => readEntries slots entries defaults
  | .list items => readItems slots items defaults
  | .moment => some defaults
  | _ => none

def layoutSlots : List (Slot LayoutSettings) := [
  ⟨"max_dt_ms", fun v s => do return { s with maxDtMs := ← readNat? v }⟩,
  ⟨"repulsion", fun v s => do return { s with repulsion := ← readSingle? v }⟩,
  ⟨"centering", fun v s => do return { s with centering := ← readSingle? v }⟩,
  ⟨"spring", fun v s => do return { s with spring := ← readSingle? v }⟩,
  ⟨"damping", fun v s => do return { s with damping := ← readSingle? v }⟩,
  ⟨"speed", fun v s => do return { s with speed := ← readSingle? v }⟩,
  ⟨"max_step", fun v s => do return { s with maxStep := ← readSingle? v }⟩,
  ⟨"epsilon_sq", fun v s => do return { s with epsilonSq := ← readSingle? v }⟩,
  ⟨"initial_spread", fun v s => do return { s with initialSpread := ← readSingle? v }⟩]

def playbackSlots : List (Slot PlaybackSettings) := [
  ⟨"live_step_ms", fun v s => do return { s with liveStepMs := ← readNat? v }⟩,
  ⟨"ghost_min_delay_ms", fun v s => do return { s with ghostMinDelayMs := ← readNat? v }⟩,
  ⟨"ghost_tail_ms", fun v s => do return { s with ghostTailMs := ← readNat? v }⟩,
  ⟨"loop_live", fun v s => do return { s with loopLive := ← readBool? v }⟩,
  ⟨"loop_ghost", fun v s => do return { s with loopGhost := ← readBool? v }⟩]

def pulseSlots : List (Slot PulseSettings) := [
  ⟨"speed", fun v s => do return { s with speed := ← readSingle? v }⟩]

def audioSlots : List (Slot AudioSettings) := [
  ⟨"enabled", fun v s => do return { s with enabled := ← readBool? v }⟩]

/-- The groups of settings. -/
def slots : List (Slot Settings) := [
  ⟨"layout", fun v s => do return { s with layout := ← readGroup? layoutSlots {} v }⟩,
  ⟨"playback", fun v s => do return { s with playback := ← readGroup? playbackSlots {} v }⟩,
  ⟨"particles", fun v s => do return { s with pulses := ← readGroup? pulseSlots {} v }⟩,
  ⟨"audio", fun v s => do return { s with audio := ← readGroup? audioSlots {} v }⟩]

/-- The settings that a document gives; none if it is not TOML or a value does not fit. -/
def ofToml? (text : List Char) : Option Settings := do readEntries slots (← parse? text) {}

/-! ## Writing -/

/-- The text of a value that can be written. -/
inductive Written where
  | nat (n : Nat)
  | single (x : Float32)
  | bool (b : Bool)

/-- The largest integer that can be written. -/
def maxInteger : Nat := 0x7FFFFFFFFFFFFFFF

/-- Numbers have all their places; a tie goes away from zero. -/
def format : Decimal.Format := ⟨.away, fun _ => true, false, "nan"⟩

def Written.text? : Written → Option String
  | .nat n => if n ≤ maxInteger then some (toString n) else none
  | .single x => some (Decimal.write format (widen x))
  | .bool b => some (if b then "true" else "false")

def written (s : Settings) : List (String × List (String × Written)) := [
  ("layout", [
    ("max_dt_ms", .nat s.layout.maxDtMs), ("repulsion", .single s.layout.repulsion),
    ("centering", .single s.layout.centering), ("spring", .single s.layout.spring),
    ("damping", .single s.layout.damping), ("speed", .single s.layout.speed),
    ("max_step", .single s.layout.maxStep), ("epsilon_sq", .single s.layout.epsilonSq),
    ("initial_spread", .single s.layout.initialSpread)]),
  ("playback", [
    ("live_step_ms", .nat s.playback.liveStepMs),
    ("ghost_min_delay_ms", .nat s.playback.ghostMinDelayMs),
    ("ghost_tail_ms", .nat s.playback.ghostTailMs), ("loop_live", .bool s.playback.loopLive),
    ("loop_ghost", .bool s.playback.loopGhost)]),
  ("particles", [("speed", .single s.pulses.speed)]),
  ("audio", [("enabled", .bool s.audio.enabled)])]

def assignment? (entry : String × Written) : Option String := do
  return entry.1 ++ " = " ++ (← entry.2.text?) ++ "\n"

def group? (group : String × List (String × Written)) : Option String := do
  return "[" ++ group.1 ++ "]\n" ++ String.join (← group.2.mapM assignment?)

/-- The document of all settings; none if an integer is too large. -/
def toToml? (s : Settings) : Option String := do
  return "\n".intercalate (← s.written.mapM group?)

end Settings
end TracePlayback
