import Mathlib.Algebra.Ring.Nat
import TracePlayback.Engine
import TracePlayback.Proofs.Outcome
import TracePlayback.Proofs.Playback.Operation

/-!
# Runs of an engine

An engine is only changed by its operations. A run is a list of them, and it ends early only if the
playback clock cannot hold the time played.

* `perform_ok`: what an operation does to the timeline is one call of the timeline, or none. It moves
  the clock on by the time it plays, and changes the graph if it loads one.
* `perform_isOk`: it fails exactly if the clock cannot hold that.
* `run_clock`, `run_graph`, `run_isOk`: the same for a whole run, all the time it plays (`played`) and
  the graph it loads last (`loaded`).
* `run_invariant`: what every operation keeps, every run keeps.
-/
namespace TracePlayback

namespace Engine

inductive Operation where
  | apply (feed : Feed)
  | loadGraph (input : GraphInput)
  | bind (name : ChannelName) (trace : Option Trace)
  | setLooping (name : ChannelName) (looping : Bool)
  | setSink (sink : Sink)
  | tickFrame (dt : Float32)
  | advancePlayback (nanos : Nat)

namespace Operation

/-- The time that an operation plays. -/
def nanos : Operation → Nat
  | .advancePlayback nanos => nanos
  | _ => 0

/-- The graph that an operation loads, if it loads one. -/
def graph? : Operation → Option Graph
  | .apply (.graph input) => some (.ofInput input)
  | .loadGraph input => some (.ofInput input)
  | _ => none

end Operation

/-- The time that a run plays. -/
def played (ops : List Operation) : Nat := (ops.map Operation.nanos).sum

@[simp]
theorem played_cons (op : Operation) (ops : List Operation) :
    played (op :: ops) = op.nanos + played ops := rfl

/-- The graph that a run loads last, or else the one that is there before it. -/
def loaded (g : Graph) (ops : List Operation) : Graph :=
  ops.foldl (fun g op => op.graph?.getD g) g

variable {γ : Type} [Generator γ]

def perform (e : Engine γ) : Operation → Except EngineError (List Event × Engine γ)
  | .apply feed => pure (e.apply feed)
  | .loadGraph input => pure (e.loadGraph input)
  | .bind name trace => pure (e.bind name trace)
  | .setLooping name looping => pure ([], e.setLooping name looping)
  | .setSink sink => pure ([], e.setSink sink)
  | .tickFrame dt => pure ([], e.tickFrame dt)
  | .advancePlayback nanos => e.advancePlayback nanos

def run (e : Engine γ) : List Operation → Except EngineError (List Event × Engine γ)
  | [] => pure ([], e)
  | op :: ops => do
    let (events, e) ← e.perform op
    let (more, e) ← e.run ops
    pure (events ++ more, e)

/-! ## One operation -/

/-- The call of the timeline that an operation makes, if it makes one. -/
def call? (e : Engine γ) : Operation → Option TracePlayback.Operation
  | .apply (.graph input) => some (.setGraph (.ofInput input))
  | .apply (.liveTrace trace) => some (.bind .live (some (.live trace)))
  | .apply (.ghostTrace trace) => some (.bind .ghost (some (.ghost trace)))
  | .apply (.clear channel) => some (.bind channel none)
  | .loadGraph input => some (.setGraph (.ofInput input))
  | .bind name trace => some (.bind name trace)
  | .setLooping name looping => some (.setLooping name looping)
  | .setSink sink => some (.setSink sink)
  | .tickFrame _ => none
  | .advancePlayback nanos => some (.advanceTo (Clock.millis (e.clock + nanos)))

/-- All that an operation returns comes from the timeline. The clock moves while it plays, and only
loading a graph changes the graph. -/
theorem perform_ok {e later : Engine γ} {op : Operation} {events : List Event}
    (h : e.perform op = .ok (events, later)) :
    (events, later.timeline) = (match e.call? op with
      | some call => e.timeline.perform call
      | none => ([], e.timeline)) ∧
    later.clock = e.clock + op.nanos ∧ later.graph = op.graph?.getD e.graph := by
  cases op with
  | apply feed => cases feed <;> (cases h; exact ⟨rfl, rfl, rfl⟩)
  | advancePlayback nanos =>
    simp only [perform, advancePlayback] at h
    split at h
    · cases h
    · cases h; exact ⟨rfl, rfl, rfl⟩
  | _ => cases h; exact ⟨rfl, rfl, rfl⟩

/-- An operation fails exactly if the clock cannot hold the time after it. -/
theorem perform_isOk {e : Engine γ} (he : e.clock ≤ Clock.maxNanos) (op : Operation) :
    (∃ events later, e.perform op = .ok (events, later)) ↔ e.clock + op.nanos ≤ Clock.maxNanos := by
  cases op with
  | advancePlayback nanos =>
    simp only [Operation.nanos, perform, advancePlayback]
    constructor
    · rintro ⟨events, later, h⟩
      split at h
      · cases h
      · omega
    · intro h
      rw [if_neg (by omega)]
      exact ⟨_, _, rfl⟩
  | _ => exact ⟨fun _ => he, fun _ => ⟨_, _, rfl⟩⟩

/-! ## Runs -/

theorem run_cons_ok {e : Engine γ} {op : Operation} {ops : List Operation}
    {events : List Event} {last : Engine γ} :
    e.run (op :: ops) = .ok (events, last) ↔
      ∃ first more next, e.perform op = .ok (first, next) ∧ next.run ops = .ok (more, last) ∧
        events = first ++ more := by
  simp only [run, bind_eq_ok, pure, Except.pure, Except.ok.injEq, Prod.mk.injEq]
  constructor
  · rintro ⟨⟨first, next⟩, hop, ⟨more, _⟩, hrest, rfl, rfl⟩
    exact ⟨first, more, next, hop, hrest, rfl⟩
  · rintro ⟨first, more, next, hop, hrest, rfl⟩
    exact ⟨(first, next), hop, (more, last), hrest, rfl, rfl⟩

/-- What every operation keeps, every run keeps. -/
theorem run_invariant {P : Engine γ → Prop}
    (hstep : ∀ e op events later, P e → e.perform op = .ok (events, later) → P later)
    {ops : List Operation} {e later : Engine γ} {events : List Event} (he : P e)
    (h : e.run ops = .ok (events, later)) : P later := by
  induction ops generalizing e events with
  | nil => cases h; exact he
  | cons op ops ih =>
    obtain ⟨first, more, next, hop, hrest, -⟩ := run_cons_ok.mp h
    exact ih (hstep e op first next he hop) hrest

theorem run_clock {ops : List Operation} {e later : Engine γ} {events : List Event}
    (h : e.run ops = .ok (events, later)) : later.clock = e.clock + played ops := by
  induction ops generalizing e events with
  | nil => cases h; rfl
  | cons op ops ih =>
    obtain ⟨first, more, next, hop, hrest, -⟩ := run_cons_ok.mp h
    rw [ih hrest, (perform_ok hop).2.1, played_cons, Nat.add_assoc]

theorem run_graph {ops : List Operation} {e later : Engine γ} {events : List Event}
    (h : e.run ops = .ok (events, later)) : later.graph = loaded e.graph ops := by
  induction ops generalizing e events with
  | nil => cases h; rfl
  | cons op ops ih =>
    obtain ⟨first, more, next, hop, hrest, -⟩ := run_cons_ok.mp h
    rw [ih hrest, (perform_ok hop).2.2]
    rfl

theorem run_isOk {e : Engine γ} (he : e.clock ≤ Clock.maxNanos) (ops : List Operation) :
    (∃ events later, e.run ops = .ok (events, later)) ↔ e.clock + played ops ≤ Clock.maxNanos := by
  induction ops generalizing e with
  | nil => exact ⟨fun _ => he, fun _ => ⟨_, _, rfl⟩⟩
  | cons op ops ih =>
    constructor
    · rintro ⟨events, last, h⟩
      obtain ⟨first, more, next, hop, hrest, -⟩ := run_cons_ok.mp h
      have hnext := (perform_isOk he op).mp ⟨first, next, hop⟩
      have hclock := (perform_ok hop).2.1
      have := (ih (by omega)).mp ⟨more, last, hrest⟩
      rw [played_cons]
      omega
    · intro h
      rw [played_cons] at h
      obtain ⟨first, next, hop⟩ := (perform_isOk he op).mpr (by omega)
      have hclock := (perform_ok hop).2.1
      obtain ⟨more, last, hrest⟩ := (ih (e := next) (by omega)).mpr (by omega)
      exact ⟨_, last, run_cons_ok.mpr ⟨first, more, next, hop, hrest, rfl⟩⟩

end Engine
end TracePlayback
