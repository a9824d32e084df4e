import TracePlayback.Proofs.Engine.Alignment
import TracePlayback.Proofs.Safety.Playback
import TracePlayback.Proofs.Safety.Tick

/-!
# Only the clock can fault

An engine whose graph and layout are kept as tables and columns, in which every index, every range
to draw from and every pair of bounds is checked where it is used. It goes through the same
operations as the engine.

* `perform_matches`: an operation of an engine in tables does not fault unless the engine itself
  fails, and then shows what the engine has become.
* `run_matches`: the same for a run.
* `run_faults_iff`: so whatever the settings and the source of random numbers, a run breaks off
  exactly if the playback clock cannot hold the time played, and no lookup faults wherever a run
  gets to.
-/
namespace TracePlayback

/-- An engine whose graph and layout are kept as tables and columns. -/
structure IndexedEngine (γ : Type) where
  settings : Settings
  index : Graph.Index
  layout : Layout.Table
  pulses : PulseField
  timeline : Timeline
  clock : Nat
  random : γ

namespace IndexedEngine

variable {γ : Type}

def new (settings : Settings) (sink : Sink) (random : γ) : IndexedEngine γ where
  settings := settings
  index := .empty
  layout := .empty
  pulses := .empty
  timeline := .new settings.playback settings.audio sink
  clock := 0
  random := random

def bind (x : IndexedEngine γ) (name : ChannelName) (trace : Option Trace) :
    Except Fault (List Event × IndexedEngine γ) := do
  let (events, timeline) ← x.index.bind x.timeline name trace
  return (events, { x with timeline := timeline })

def tickFrame (x : IndexedEngine γ) (dt : Float32) :
    Except Fault (List Event × IndexedEngine γ) := do
  let layout ← x.layout.step x.settings.layout dt
  let pulses := x.pulses.tick (Scalar.smaller dt x.settings.layout.maxDt) x.settings.pulses.speed
  return ([], { x with layout := layout, pulses := pulses })

def advancePlayback (x : IndexedEngine γ) (nanos : Nat) :
    Except Fault (List Event × IndexedEngine γ) := do
  let clock := x.clock + nanos
  if Clock.maxNanos < clock then .error .clockOverflow
  else
    let (events, timeline) ← x.index.advanceTo x.timeline (Clock.millis clock)
    return (events, { x with clock := clock, timeline := timeline })

/-- The tables and columns are those of an engine. -/
structure Shows (x : IndexedEngine γ) (e : Engine γ) : Prop where
  settings : x.settings = e.settings
  index : x.index.Agrees e.graph
  layout : x.layout.Shows e.layout
  pulses : x.pulses = e.pulses
  timeline : x.timeline = e.timeline
  clock : x.clock = e.clock
  random : x.random = e.random

/-- Two outcomes that tell the same: the events and the engine, or that the clock cannot hold its
time. -/
inductive Matches : Except Fault (List Event × IndexedEngine γ) →
    Except EngineError (List Event × Engine γ) → Prop
  | ok {events : List Event} {x : IndexedEngine γ} {e : Engine γ} (h : x.Shows e) :
      Matches (.ok (events, x)) (.ok (events, e))
  | clockOverflow : Matches (.error .clockOverflow) (.error .clockOverflow)

theorem Matches.bind {r : Except Fault (List Event × IndexedEngine γ)}
    {s : Except EngineError (List Event × Engine γ)} (h : Matches r s)
    {f : List Event × IndexedEngine γ → Except Fault (List Event × IndexedEngine γ)}
    {g : List Event × Engine γ → Except EngineError (List Event × Engine γ)}
    (hnext : ∀ events x e, x.Shows e → s = .ok (events, e) →
      Matches (f (events, x)) (g (events, e))) :
    Matches (r >>= f) (s >>= g) := by
  cases h with
  | ok h => exact hnext _ _ _ h rfl
  | clockOverflow => exact .clockOverflow

theorem Matches.error_iff {r : Except Fault (List Event × IndexedEngine γ)}
    {s : Except EngineError (List Event × Engine γ)} (h : Matches r s) (fault : Fault) :
    r = .error fault ↔ fault = .clockOverflow ∧ ¬ ∃ events e, s = .ok (events, e) := by
  cases h with
  | ok h => simp
  | clockOverflow => simp [eq_comm]

theorem new_shows (settings : Settings) (sink : Sink) (random : γ) :
    (new settings sink random).Shows (Engine.new settings sink random) :=
  ⟨rfl, Graph.Index.empty_agrees, Layout.Table.empty_shows, rfl, rfl, rfl, rfl⟩

variable [Generator γ]

def loadGraph (x : IndexedEngine γ) (input : GraphInput) :
    Except Fault (List Event × IndexedEngine γ) := do
  let index := Graph.Index.ofInput input
  let (layout, random) ← x.layout.sync index x.settings.layout.initialSpread x.random
  let (pulses, random) ← x.pulses.syncDrawn index.graph random
  let (events, timeline) ← index.setGraph x.timeline
  return (events, { x with
    index := index, layout := layout, pulses := pulses, timeline := timeline, random := random })

def perform (x : IndexedEngine γ) : Engine.Operation → Except Fault (List Event × IndexedEngine γ)
  | .apply (.graph input) => x.loadGraph input
  | .apply (.liveTrace trace) => x.bind .live (some (.live trace))
  | .apply (.ghostTrace trace) => x.bind .ghost (some (.ghost trace))
  | .apply (.clear channel) => x.bind channel none
  | .loadGraph input => x.loadGraph input
  | .bind name trace => x.bind name trace
  | .setLooping name looping =>
    .ok ([], { x with timeline := x.timeline.setLooping name looping })
  | .setSink sink => .ok ([], { x with timeline := x.timeline.setSink sink })
  | .tickFrame dt => x.tickFrame dt
  | .advancePlayback nanos => x.advancePlayback nanos

def run (x : IndexedEngine γ) : List Engine.Operation → Except Fault (List Event × IndexedEngine γ)
  | [] => .ok ([], x)
  | op :: ops => do
    let (events, x) ← x.perform op
    let (more, x) ← x.run ops
    return (events ++ more, x)

/-! ## One operation -/

variable {x : IndexedEngine γ} {e : Engine γ}

theorem loadGraph_matches (h : x.Shows e) (input : GraphInput) :
    Matches (x.loadGraph input) (.ok (e.loadGraph input)) := by
  have hx := Graph.Index.ofInput_agrees input
  have hg := Graph.ofInput_wellFormed input
  obtain ⟨layout, hok, hlayout⟩ :=
    Layout.Table.sync_eq h.layout hx hg e.settings.layout.initialSpread e.random
  simp only [loadGraph, h.settings, h.random, h.pulses, h.timeline, hok, hx.graph, ok_bind,
    PulseField.syncDrawn_eq, Graph.Index.setGraph_eq hx hg]
  exact .ok ⟨rfl, hx, hlayout, rfl, rfl, h.clock, rfl⟩

omit [Generator γ] in
theorem bind_matches (h : x.Shows e) (ha : e.Aligned) (name : ChannelName) (trace : Option Trace) :
    Matches (x.bind name trace) (.ok (e.bind name trace)) := by
  have hx := h.index
  have hg := ha.graph_wellFormed
  rw [← ha.timeline_graph] at hx hg
  simp only [bind, h.timeline, Graph.Index.bind_eq hx hg, ok_bind]
  exact .ok ⟨h.settings, h.index, h.layout, h.pulses, rfl, h.clock, h.random⟩

omit [Generator γ] in
theorem tickFrame_matches (h : x.Shows e) (ha : e.Aligned) (dt : Float32) :
    Matches (x.tickFrame dt) (.ok ([], e.tickFrame dt)) := by
  obtain ⟨layout, hok, hlayout⟩ :=
    Layout.Table.step_eq h.layout ha.layout_follows.springsInRange e.settings.layout dt
  simp only [tickFrame, h.settings, h.pulses, hok, ok_bind]
  exact .ok ⟨rfl, h.index, hlayout, rfl, h.timeline, h.clock, h.random⟩

omit [Generator γ] in
theorem advancePlayback_matches (h : x.Shows e) (ha : e.Aligned) (nanos : Nat) :
    Matches (x.advancePlayback nanos) (e.advancePlayback nanos) := by
  have hx := h.index
  have hg := ha.graph_wellFormed
  rw [← ha.timeline_graph] at hx hg
  simp only [advancePlayback, Engine.advancePlayback, h.clock, h.timeline]
  split
  · exact .clockOverflow
  · rw [Graph.Index.advanceTo_eq hx hg]
    exact .ok ⟨h.settings, h.index, h.layout, h.pulses, rfl, rfl, h.random⟩

theorem perform_matches (h : x.Shows e) (ha : e.Aligned) (op : Engine.Operation) :
    Matches (x.perform op) (e.perform op) := by
  cases op with
  | apply feed =>
    cases feed with
    | graph input => exact loadGraph_matches h input
    | liveTrace trace => exact bind_matches h ha _ _
    | ghostTrace trace => exact bind_matches h ha _ _
    | clear channel => exact bind_matches h ha _ _
  | loadGraph input => exact loadGraph_matches h input
  | bind name trace => exact bind_matches h ha name trace
  | setLooping name looping =>
    exact .ok ⟨h.settings, h.index, h.layout, h.pulses, by rw [h.timeline]; rfl, h.clock, h.random⟩
  | setSink sink =>
    exact .ok ⟨h.settings, h.index, h.layout, h.pulses, by rw [h.timeline]; rfl, h.clock, h.random⟩
  | tickFrame dt => exact tickFrame_matches h ha dt
  | advancePlayback nanos => exact advancePlayback_matches h ha nanos

/-! ## Runs -/

theorem run_matches (h : x.Shows e) (ha : e.Aligned) (ops : List Engine.Operation) :
    Matches (x.run ops) (e.run ops) := by
  induction ops generalizing x e with
  | nil => exact .ok h
  | cons op ops ih =>
    refine (perform_matches h ha op).bind fun first x e hfirst hop => ?_
    refine (ih hfirst (Engine.perform_aligned ha hop)).bind fun more x e hlast _ => ?_
    exact .ok hlast

/-- **Only the clock can fault.** Whatever the settings and the source of random numbers, a run
breaks off exactly if the playback clock cannot hold the time that it plays, and with no other
fault. Where it gets to its end, it has returned the events of the engine and shows what the engine
has become; a further operation faults exactly if the clock cannot hold the time after it; and no
lookup of an id or a line faults. -/
theorem run_faults_iff (settings : Settings) (sink : Sink) (random : γ)
    (ops : List Engine.Operation) :
    (∀ fault, (new settings sink random).run ops = .error fault ↔
      fault = .clockOverflow ∧ Clock.maxNanos < Engine.played ops) ∧
    ∀ events x, (new settings sink random).run ops = .ok (events, x) →
      (∃ e, (Engine.new settings sink random).run ops = .ok (events, e) ∧ x.Shows e) ∧
      (∀ op fault, x.perform op = .error fault ↔
        fault = .clockOverflow ∧ Clock.maxNanos < Engine.played ops + op.nanos) ∧
      (∀ id, ∃ node, x.index.node id = .ok node) ∧
      (∀ line, ∃ node, x.index.nodeForLine line = .ok node) ∧
      (∀ id, ∃ p, x.layout.position id = .ok p) ∧
      ∀ id, ∃ v, x.layout.velocity id = .ok v := by
  have ha := Engine.new_aligned settings sink random
  have hmatches := run_matches (new_shows settings sink random) ha ops
  have hclock : (Engine.new settings sink random).clock = 0 := rfl
  have hfit := Engine.run_isOk (e := Engine.new settings sink random) (Nat.zero_le _) ops
  rw [hclock, Nat.zero_add] at hfit
  refine ⟨fun fault => by rw [hmatches.error_iff, hfit, Nat.not_le], fun events x hx => ?_⟩
  rw [hx] at hmatches
  generalize hrun : (Engine.new settings sink random).run ops = r at hmatches
  cases hmatches with
  | @ok _ _ e hshows =>
    have hlater : e.Aligned :=
      Engine.run_invariant (fun _ _ _ _ => Engine.perform_aligned) ha hrun
    have hplayed : e.clock = Engine.played ops := by
      rw [Engine.run_clock hrun, hclock, Nat.zero_add]
    have hle : e.clock ≤ Clock.maxNanos := by rw [hplayed]; exact hfit.mp ⟨_, _, hrun⟩
    refine ⟨⟨e, rfl, hshows⟩, fun op fault => ?_,
      fun id => ⟨_, Graph.Index.node_eq hshows.index id⟩,
      fun line => ⟨_, Graph.Index.nodeForLine_eq hshows.index hlater.graph_wellFormed line⟩,
      fun id => ⟨_, Layout.Table.position_eq hshows.layout id⟩,
      fun id => ⟨_, Layout.Table.velocity_eq hshows.layout id⟩⟩
    rw [(perform_matches hshows hlater op).error_iff, Engine.perform_isOk hle, hplayed, Nat.not_le]

end IndexedEngine
end TracePlayback
