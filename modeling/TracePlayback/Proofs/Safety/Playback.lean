import TracePlayback.Proofs.Playback.Operation
import TracePlayback.Proofs.Safety.Index
import TracePlayback.Pulse

/-!
# Playback through the tables of a graph

The timeline looks up nothing but the nodes of lines. Here it does so through the tables of the
graph that it plays on, so that a step faults where a lookup does. The phases of new pulses are
drawn from a range that is checked.

* `advanceTo_eq`, `setGraph_eq`, `bind_eq`: with tables that agree with a well-formed graph nothing
  faults, and each call is what it is without tables.
* `PulseField.syncDrawn_eq`: no draw of a phase faults.
-/
namespace TracePlayback

namespace Graph.Index

def play (x : Index) (c : Channel) (s : PlaybackSettings) (trace : Trace) (i time : Nat) :
    Except Fault (List Step × Channel) := do
  let node ← match trace.lineAt? i with
    | some line => x.nodeForLine line
    | none => .ok none
  let (steps, c) := match node with
    | some node => c.land x.graph node
    | none => ([], c)
  return (steps, { c with
    cursor := i + 1
    lastAdvance := some time
    due := some (Clock.after time (trace.delayAfter s i)) })

def fire? (x : Index) (c : Channel) (s : PlaybackSettings) (now : Nat) :
    Except Fault (Option (Nat × List Step × Channel)) :=
  match c.due, c.trace with
  | some time, some trace =>
    if now < time then .ok none
    else if c.cursor < trace.length then do
      return some (time, ← x.play c s trace c.cursor time)
    else if c.looping ∧ 0 < trace.length then do
      return some (time, ← x.play c s trace 0 time)
    else .ok (some (time, c.finish time))
  | _, _ => .ok none

def fire (x : Index) (t : Timeline) (name : ChannelName) (due : Nat) :
    Except Fault (List Event × Timeline) := do
  let t := { t with now := max t.now due }
  match ← x.fire? (t.channel name) t.settings t.now with
  | none => return ([], t)
  | some (time, steps, c) =>
    return (steps.map fun step => ⟨name, time, step⟩,
      steps.foldl Timeline.sound (t.setChannel name c))

def runDue (x : Index) (target : Nat) : Nat → Timeline → Except Fault (List Event × Timeline)
  | 0, t => .ok ([], t)
  | budget + 1, t =>
    match t.earliest? with
    | none => .ok ([], t)
    | some (name, due) =>
      if target < due then .ok ([], t)
      else do
        let (events, t) ← x.fire t name due
        let (more, t) ← x.runDue target budget t
        return (events ++ more, t)

def advanceTo (x : Index) (t : Timeline) (target : Nat) : Except Fault (List Event × Timeline) := do
  let target := min target Clock.last
  let (events, t) ← x.runDue target Timeline.maxSteps t
  return (events, { t with now := max t.now target })

def setGraph (x : Index) (t : Timeline) : Except Fault (List Event × Timeline) :=
  x.advanceTo (t.renewed x.graph) t.now

def bind (x : Index) (t : Timeline) (name : ChannelName) (trace : Option Trace) :
    Except Fault (List Event × Timeline) :=
  x.advanceTo (t.setChannel name ((t.channel name).bind trace t.now)) t.now

/-! ## The same without tables -/

variable {x : Index} {g : Graph}

theorem play_eq (hx : x.Agrees g) (hg : g.WellFormed) (c : Channel) (s : PlaybackSettings)
    (trace : Trace) (i time : Nat) : x.play c s trace i time = .ok (c.play s g trace i time) := by
  unfold play Channel.play
  cases hline : trace.lineAt? i with
  | none => rfl
  | some line => simp only [nodeForLine_eq hx hg, hx.graph, ok_bind, Option.bind_some]; rfl

theorem fire?_eq (hx : x.Agrees g) (hg : g.WellFormed) (c : Channel) (s : PlaybackSettings)
    (now : Nat) : x.fire? c s now = .ok (c.fire? s g now) := by
  unfold fire? Channel.fire?
  cases c.due with
  | none => rfl
  | some time =>
    cases c.trace with
    | none => rfl
    | some trace =>
      simp only [play_eq hx hg, ok_bind, Option.bind_eq_bind, Option.bind_some]
      split
      · rfl
      · split
        · rfl
        · split <;> rfl

theorem fire_eq {t : Timeline} (hx : x.Agrees t.graph) (hg : t.graph.WellFormed)
    (name : ChannelName) (due : Nat) : x.fire t name due = .ok (t.fire name due) := by
  unfold fire Timeline.fire
  simp only [fire?_eq hx hg, ok_bind]
  generalize Channel.fire? _ _ _ _ = fired
  cases fired <;> rfl

theorem runDue_eq {t : Timeline} (hx : x.Agrees t.graph) (hg : t.graph.WellFormed)
    (target n : Nat) : x.runDue target n t = .ok (Timeline.runDue target n t) := by
  induction n generalizing t with
  | zero => rfl
  | succ n ih =>
    unfold runDue Timeline.runDue
    cases he : t.earliest? with
    | none => rfl
    | some p =>
      obtain ⟨name, due⟩ := p
      have hgraph := (Timeline.fire_frame (Timeline.earliest?_due he)).2.1
      simp only [fire_eq hx hg, ok_bind, ih (hgraph ▸ hx) (hgraph ▸ hg)]
      split <;> rfl

theorem advanceTo_eq {t : Timeline} (hx : x.Agrees t.graph) (hg : t.graph.WellFormed)
    (target : Nat) : x.advanceTo t target = .ok (t.advanceTo target) := by
  simp only [advanceTo, runDue_eq hx hg, ok_bind]
  rfl

theorem setGraph_eq (hx : x.Agrees g) (hg : g.WellFormed) (t : Timeline) :
    x.setGraph t = .ok (t.setGraph g) := by
  rw [setGraph, hx.graph]
  exact advanceTo_eq (t := t.renewed g) hx hg _

theorem bind_eq {t : Timeline} (hx : x.Agrees t.graph) (hg : t.graph.WellFormed)
    (name : ChannelName) (trace : Option Trace) : x.bind t name trace = .ok (t.bind name trace) := by
  have hgraph := t.setChannel_graph name ((t.channel name).bind trace t.now)
  rw [bind, advanceTo_eq (hgraph ▸ hx) (hgraph ▸ hg)]
  cases name <;> rfl

end Graph.Index

/-! ## Pulses -/

namespace PulseField

variable {γ : Type} [Generator γ]

/-- The pulses for a list of links, new phases drawn from a range that is checked. -/
def placeDrawn (old : PulseField) : List Link → γ → Except Fault (List Pulse × γ)
  | [], g => .ok ([], g)
  | l :: rest, g =>
    match old.phase? l with
    | some p => do
      let (pulses, g) ← placeDrawn old rest g
      return (⟨l, p⟩ :: pulses, g)
    | none => do
      let (p, g) ← Guard.draw 0 1 g
      let (pulses, g) ← placeDrawn old rest g
      return (⟨l, p⟩ :: pulses, g)

/-- Retargets the pulses at the links of a graph. -/
def syncDrawn (f : PulseField) (graph : Graph) (g : γ) : Except Fault (PulseField × γ) := do
  let (pulses, g) ← placeDrawn f graph.links g
  return (⟨pulses⟩, g)

theorem placeDrawn_eq (old : PulseField) (links : List Link) (g : γ) :
    old.placeDrawn links g = .ok (old.place links g) := by
  have hunit : (0 : Float32).isFinite ∧ (1 : Float32).isFinite ∧ (0 : Float32) < 1 ∧
      ((1 : Float32) - 0).isFinite := by decide
  induction links generalizing g with
  | nil => rfl
  | cons l rest ih =>
    unfold placeDrawn place
    cases old.phase? l with
    | none => simp only [Guard.draw_eq hunit, ih, ok_bind]; rfl
    | some p => simp only [ih, ok_bind]; rfl

theorem syncDrawn_eq (f : PulseField) (graph : Graph) (g : γ) :
    f.syncDrawn graph g = .ok (f.sync graph g) := by
  simp only [syncDrawn, placeDrawn_eq, ok_bind]
  rfl

end PulseField
end TracePlayback
