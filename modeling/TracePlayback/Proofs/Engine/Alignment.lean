import TracePlayback.Proofs.Engine.Operation
import TracePlayback.Proofs.Playback.FrameRate
import TracePlayback.Proofs.Layout.Retarget
import TracePlayback.Proofs.Pulse.Phases

/-!
# The parts of an engine stay aligned

The graph is there more than once in an engine: as itself, in the timeline, as the bodies and
springs of the layout and as the links of the pulses. A graph that is loaded reaches them one after
the other, and what moves them afterwards moves them on their own. There are two clocks as well.

* `Aligned`: all of them show the same graph, and the timeline shows the whole milliseconds of the
  playback clock.
* `perform_aligned`: every operation keeps that, whichever parts it touches.
* `run_aligned`: so an engine is aligned after every run that the playback clock can hold.
-/
namespace TracePlayback

/-! ## Pulses -/

namespace PulseField

/-- No pulse is left out whose two ends are laid out. -/
theorem positions_links (f : PulseField) (l : Layout)
    (h : ∀ p ∈ f.pulses, (l.position? p.link.source).isSome ∧ (l.position? p.link.target).isSome) :
    (f.positions l).map Prod.fst = f.pulses.map Pulse.link := by
  unfold positions
  revert h
  induction f.pulses with
  | nil => intro; rfl
  | cons p rest ih =>
    intro h
    obtain ⟨hs, ht⟩ := h p List.mem_cons_self
    obtain ⟨a, ha⟩ := Option.isSome_iff_exists.mp hs
    obtain ⟨b, hb⟩ := Option.isSome_iff_exists.mp ht
    rw [List.filterMap_cons_some (b := (p.link, a.lerp b p.phase)) (by rw [ha, hb]; rfl)]
    rw [List.map_cons, List.map_cons, ih fun q hq => h q (List.mem_cons_of_mem _ hq)]

end PulseField

namespace Engine

/-- All parts show the same graph, and the clocks show the same time. -/
structure Aligned {γ : Type} (e : Engine γ) : Prop where
  /-- No id and no link is there twice. -/
  graph_wellFormed : e.graph.WellFormed
  timeline_graph : e.timeline.graph = e.graph
  layout_follows : e.layout.Follows e.graph
  /-- Every link has its pulse, in link order. -/
  pulse_links : e.pulses.pulses.map Pulse.link = e.graph.links
  /-- Every pulse is somewhere in the layout. -/
  positions_links : (e.pulses.positions e.layout).map Prod.fst = e.graph.links
  timeline_now : e.timeline.now = Clock.millis e.clock

variable {γ : Type}

/-- The places of the pulses follow from the rest. -/
theorem Aligned.of_follows {e : Engine γ} (hg : e.graph.WellFormed)
    (hgraph : e.timeline.graph = e.graph) (hlayout : e.layout.Follows e.graph)
    (hlinks : e.pulses.pulses.map Pulse.link = e.graph.links)
    (hnow : e.timeline.now = Clock.millis e.clock) : e.Aligned := by
  refine ⟨hg, hgraph, hlayout, hlinks, ?_, hnow⟩
  rw [← hlinks]
  refine e.pulses.positions_links e.layout fun p hp => ?_
  have hmem : p.link ∈ e.graph.links := hlinks ▸ List.mem_map_of_mem hp
  simpa only [Layout.position?_isSome hlayout] using hg.ends_known p.link hmem

theorem new_aligned (settings : Settings) (sink : Sink) (random : γ) :
    (new settings sink random).Aligned :=
  .of_follows Graph.wellFormed_empty rfl Layout.empty_follows rfl
    (by simp [new, Timeline.new, Clock.millis])

/-! ## What the operations do -/

/-- Whatever a timeline is told to do: it is enough that it keeps the graph and shows the time. -/
theorem timeline_aligned {e : Engine γ} (h : e.Aligned) {t : Timeline} {clock : Nat}
    (hgraph : t.graph = e.timeline.graph) (hnow : t.now = Clock.millis clock) :
    { e with timeline := t, clock := clock }.Aligned :=
  .of_follows h.graph_wellFormed (hgraph.trans h.timeline_graph) h.layout_follows h.pulse_links hnow

theorem tickFrame_aligned {e : Engine γ} (h : e.Aligned) (dt : Float32) :
    (e.tickFrame dt).Aligned :=
  .of_follows h.graph_wellFormed h.timeline_graph (Layout.step_follows h.layout_follows _ dt)
    ((PulseField.tick_links e.pulses _ _).trans h.pulse_links) h.timeline_now

theorem bind_aligned {e : Engine γ} (h : e.Aligned) (name : ChannelName) (trace : Option Trace) :
    (e.bind name trace).2.Aligned := by
  refine timeline_aligned h ?_ ?_
  · exact (e.timeline.perform_graph (.bind name trace)).trans (Timeline.setChannel_graph _ _ _)
  · rw [← h.timeline_now]
    exact Timeline.perform_now_self (.bind name trace) fun _ ht =>
      Nat.le_of_eq (Option.some.inj ht).symm

theorem advancePlayback_aligned {e later : Engine γ} (h : e.Aligned) {nanos : Nat}
    {events : List Event} (hop : e.advancePlayback nanos = .ok (events, later)) :
    later.Aligned := by
  have hfit : e.clock + nanos ≤ Clock.maxNanos := by
    unfold advancePlayback at hop
    simp only at hop
    split at hop
    · cases hop
    · omega
  rw [advancePlayback_eq hfit] at hop
  cases hop
  refine timeline_aligned h (Timeline.advanceTo_graph _ _) ?_
  have hle : e.timeline.now ≤ Clock.millis (e.clock + nanos) := by
    rw [h.timeline_now]
    exact Clock.millis_mono (Nat.le_add_right _ _)
  have hlast := Clock.millis_le_last (e.clock + nanos)
  simp only [Timeline.advanceTo_eq, Timeline.atTime_now]
  omega

variable [Generator γ]

theorem loadGraph_aligned {e : Engine γ} (h : e.Aligned) (input : GraphInput) :
    (e.loadGraph input).2.Aligned := by
  have hg := Graph.ofInput_wellFormed input
  refine .of_follows hg ?_ (Layout.sync_follows e.layout hg _ e.random) ?_ ?_
  · exact e.timeline.perform_graph (.setGraph (.ofInput input))
  · exact PulseField.place_links e.pulses _ _
  · rw [show (e.loadGraph input).2.clock = e.clock from rfl, ← h.timeline_now]
    exact Timeline.perform_now_self (.setGraph (.ofInput input)) fun _ ht =>
      Nat.le_of_eq (Option.some.inj ht).symm

theorem perform_aligned {e later : Engine γ} {op : Operation} {events : List Event} (h : e.Aligned)
    (hop : e.perform op = .ok (events, later)) : later.Aligned := by
  cases op with
  | apply feed =>
    cases feed with
    | graph input => cases hop; exact loadGraph_aligned h input
    | liveTrace trace => cases hop; exact bind_aligned h _ _
    | ghostTrace trace => cases hop; exact bind_aligned h _ _
    | clear channel => cases hop; exact bind_aligned h _ _
  | loadGraph input => cases hop; exact loadGraph_aligned h input
  | bind name trace => cases hop; exact bind_aligned h name trace
  | setLooping name looping =>
    cases hop
    exact timeline_aligned h (Timeline.setChannel_graph _ _ _)
      ((Timeline.setChannel_now _ _ _).trans h.timeline_now)
  | setSink sink => cases hop; exact timeline_aligned h rfl h.timeline_now
  | tickFrame dt => cases hop; exact tickFrame_aligned h dt
  | advancePlayback nanos => exact advancePlayback_aligned h hop

/-! ## Runs -/

/-- **The parts of an engine stay aligned.** Whatever the settings and the source of random numbers,
a run of operations gets to its end if the playback clock can hold the time that it plays. Then all
parts of the engine show the graph that was loaded last, and the timeline shows the whole
milliseconds of that time, as far as it goes. -/
theorem run_aligned (settings : Settings) (sink : Sink) (random : γ) (ops : List Operation)
    (hfit : played ops ≤ Clock.maxNanos) :
    ∃ events e, (new settings sink random).run ops = .ok (events, e) ∧ e.Aligned ∧
      e.graph = loaded .empty ops ∧ e.timeline.now = Clock.millis (played ops) := by
  have hclock : (new settings sink random).clock = 0 := rfl
  obtain ⟨events, e, h⟩ := (run_isOk (e := new settings sink random) (Nat.zero_le _) ops).mpr
    (by rw [hclock]; omega)
  have ha : e.Aligned :=
    run_invariant (fun _ _ _ _ => perform_aligned) (new_aligned settings sink random) h
  refine ⟨events, e, h, ha, run_graph h, ?_⟩
  rw [ha.timeline_now, run_clock h, hclock, Nat.zero_add]

/-- A node that is there twice, and a link that is there twice beside one to the same node and one
to nowhere. -/
def tangled : GraphInput where
  nodes := [⟨.text "f", .function, "f", some 1⟩, ⟨.number 2, .loop, "loop", some 2⟩,
    ⟨.text "2", .statement, "again", some 3⟩]
  links := [⟨.text "f", .text "2"⟩, ⟨.text "f", .number 2⟩, ⟨.text "f", .text "f"⟩,
    ⟨.text "f", .text "g"⟩]
  error := none

/-- A run in which the analysis fails first, and the tangled graph is loaded while a trace is played
and the clock is between two milliseconds. -/
theorem tangled_aligned :
    let ops := [.tickFrame 0.5, .apply (.liveTrace ⟨#[1, 2]⟩),
      .apply (.graph ⟨[], [], some "no parse"⟩), .advancePlayback 400000, .loadGraph tangled,
      .setLooping .live true, .advancePlayback 499999999, .tickFrame 0.25, .advancePlayback 999]
    played ops ≤ Clock.maxNanos ∧
      ∃ events e, (new {} .silent (WordSource.mk [7])).run ops = .ok (events, e) ∧ e.Aligned ∧
        e.graph = loaded .empty ops ∧ e.timeline.now = Clock.millis (played ops) :=
  ⟨by decide, run_aligned {} .silent _ _ (by decide)⟩

end Engine
end TracePlayback
