import TracePlayback.Proofs.Graph.Intake
import TracePlayback.Proofs.Random.Draws
import TracePlayback.Proofs.Single.Fraction
import TracePlayback.Pulse

/-!
# Pulses stay on their links and on their way

Pulses are retargeted at graph after graph and moved on frame by frame, by any amount that the
frames come to. The sum of a phase and an advance is rounded before its whole part is taken away, so
it may come to one exactly, or to the largest of all singles.

* `place_eq_fill`: a link that is known keeps its pulse, and a new one gets one at random.
* `sync_phase?`, `newPulses_sync`: what is kept, and what is drawn.
* `tick_inRange`, `sync_inRange`: what every operation does to the range of the phases.
* `after_links`, `after_inRange`: so it is after every run.
* `phases_stay`: all together, and what the next operation does.
-/
namespace TracePlayback.PulseField

open Single

/-! ## Known and new links -/

section
variable {γ : Type} [Generator γ]

/-- A new link gets a pulse somewhere on its way. -/
def newPulse (l : Link) (g : γ) : Pulse × γ :=
  let (p, g) := Random.uniform 0 1 g
  (⟨l, p⟩, g)

def newLinks (f : PulseField) (graph : Graph) : List Link :=
  graph.links.filter fun l => (f.phase? l).isNone

/-- The pulses whose links had none. -/
def newPulses (f later : PulseField) : List Pulse :=
  later.pulses.filter fun p => (f.phase? p.link).isNone

/-- The pulse of a link. -/
def pulse? (f : PulseField) (l : Link) : Option Pulse := (f.phase? l).map (Pulse.mk l)

theorem place_eq_fill (old : PulseField) (links : List Link) (g : γ) :
    old.place links g = Random.fill old.pulse? id newPulse links g := by
  induction links generalizing g with
  | nil => rfl
  | cons l rest ih =>
    have hpulse : old.pulse? (id l) = (old.phase? l).map (Pulse.mk l) := rfl
    unfold place Random.fill
    rw [hpulse]
    cases old.phase? l with
    | some p => simp only [ih, Option.map_some]
    | none => simp only [newPulse, ih, Option.map_none]

theorem keyed_pulse? (f : PulseField) :
    Random.Keyed f.pulse? id Pulse.link (newPulse (γ := γ)) where
  kept h := by
    obtain ⟨p, -, rfl⟩ := Option.map_eq_some_iff.mp h
    rfl
  drawn _ _ := rfl

theorem place_links (old : PulseField) (links : List Link) (g : γ) :
    (old.place links g).1.map Pulse.link = links := by
  rw [place_eq_fill, old.keyed_pulse?.fill_keys, List.map_id]

/-- A link that is known keeps its phase. -/
theorem sync_phase? (f : PulseField) {graph : Graph} (g : γ) {link : Link} {p : Float32}
    (hlink : link ∈ graph.links) (hp : f.phase? link = some p) :
    (f.sync graph g).1.phase? link = some p := by
  have hpulse : f.pulse? link = some ⟨link, p⟩ := by rw [pulse?, hp, Option.map_some]
  have hkept := f.keyed_pulse?.fill_kept g (by simpa using hlink) hpulse
  rw [← place_eq_fill] at hkept
  exact congrArg (Option.map Pulse.phase) hkept

/-- The others get one number each, in link order, and no other numbers are drawn. -/
theorem newPulses_sync (f : PulseField) (graph : Graph) (g : γ) :
    (f.newPulses (f.sync graph g).1).map Pulse.link = f.newLinks graph ∧
      Random.draws 0 1 (f.newLinks graph).length g =
        ((f.newPulses (f.sync graph g).1).map Pulse.phase, (f.sync graph g).2) := by
  have hnew : Random.drawAll newPulse (f.newLinks graph) g =
      (f.newPulses (f.sync graph g).1, (f.sync graph g).2) := by
    have h := f.keyed_pulse?.fill_new graph.links g
    simp only [pulse?, Option.isNone_map, id] at h
    rw [newLinks, h]
    simp only [newPulses, sync, place_eq_fill]
  have hlinks := f.keyed_pulse?.drawAll_keys (f.newLinks graph) g
  have hdraws : Random.draws 0 1 ((f.newLinks graph).length * 1) g =
      ((Random.drawAll newPulse (f.newLinks graph) g).1.flatMap fun p => [p.phase],
        (Random.drawAll newPulse (f.newLinks graph) g).2) :=
    Random.drawAll_eq_draws (fun _ _ => rfl) (f.newLinks graph) g
  rw [hnew, List.map_id] at hlinks
  rw [hnew, Nat.mul_one, ← List.map_eq_flatMap] at hdraws
  exact ⟨hlinks, hdraws⟩

end

/-! ## The range of the phases -/

/-- Every phase is a number from 0 up to but not including 1. -/
def InRange (f : PulseField) : Prop :=
  ∀ p ∈ f.pulses, p.phase.isFinite ∧ 0 ≤ p.phase ∧ p.phase < 1

theorem sync_inRange {γ : Type} [Generator γ] {f : PulseField} (h : f.InRange) (graph : Graph)
    (g : γ) : (f.sync graph g).1.InRange := by
  intro p hp
  have hmem : p ∈ (f.place graph.links g).1 := hp
  rw [place_eq_fill] at hmem
  obtain ⟨l, hold⟩ | ⟨l, g', rfl⟩ := Random.fill_cases hmem
  · obtain ⟨phase, hphase, rfl⟩ := Option.map_eq_some_iff.mp hold
    obtain ⟨q, hq, rfl⟩ := Option.map_eq_some_iff.mp hphase
    exact h q (List.mem_of_find?_eq_some hq)
  · exact ⟨Random.uniform_isFinite (by decide) (by decide) g',
      Random.uniform_range (by decide) (by decide) g'⟩

theorem tick_links (f : PulseField) (dt speed : Float32) :
    (f.tick dt speed).pulses.map Pulse.link = f.pulses.map Pulse.link := by
  simp only [tick]
  split
  · rfl
  · simp

theorem tick_still (f : PulseField) {dt speed : Float32}
    (h : (dt * speed).isFinite = false ∨ ¬ 0 < dt * speed) : f.tick dt speed = f := by
  have hstill : ¬ (dt * speed).isFinite ∨ dt * speed ≤ 0 := by
    by_cases hfin : (dt * speed).isFinite
    · right
      rw [nonpos_iff_not_pos]
      exact ⟨isNaN_of_isFinite hfin, h.resolve_left (by simp [hfin])⟩
    · exact Or.inl hfin
  rw [tick, if_pos hstill]

theorem tick_moves (f : PulseField) {dt speed : Float32} (hfin : (dt * speed).isFinite)
    (hpos : 0 < dt * speed) :
    f.tick dt speed =
      ⟨f.pulses.map fun p => { p with phase := Scalar.fract (p.phase + dt * speed) }⟩ := by
  have hmoves : ¬ (¬ (dt * speed).isFinite ∨ dt * speed ≤ 0) := by
    rw [nonpos_iff_not_pos]
    simp [hfin, hpos]
  rw [tick, if_neg hmoves]

/-- A phase and an advance have a sum, and of the sum the whole part is taken away. -/
theorem moved_phase {p advance : Float32} (hp : p.isFinite ∧ 0 ≤ p ∧ p < 1)
    (hfin : advance.isFinite) (hpos : 0 < advance) :
    (p + advance).isFinite ∧
      grains (Scalar.fract (p + advance)) = grains (p + advance) % grains 1 ∧
      (Scalar.fract (p + advance)).isFinite ∧ 0 ≤ Scalar.fract (p + advance) ∧
      Scalar.fract (p + advance) < 1 := by
  obtain ⟨hp, h0, h1⟩ := hp
  have hnonneg : 0 ≤ advance := by
    rw [lt_iff_grains (by decide) hfin, grains_zero] at hpos
    rw [nonneg_iff_grains hfin]
    omega
  obtain ⟨hsum, hsum0⟩ := add_isFinite hp h0 h1 hfin hnonneg
  obtain ⟨hrest, hgrains⟩ := grains_fract hsum hsum0
  exact ⟨hsum, by rw [hgrains, grains_one], hrest, fract_range hsum hsum0⟩

theorem tick_inRange {f : PulseField} (h : f.InRange) (dt speed : Float32) :
    (f.tick dt speed).InRange := by
  by_cases hmoves : (dt * speed).isFinite ∧ 0 < dt * speed
  · obtain ⟨hfin, hpos⟩ := hmoves
    rw [tick_moves f hfin hpos]
    intro q hq
    obtain ⟨p, hp, rfl⟩ := List.mem_map.mp hq
    exact (moved_phase (h p hp) hfin hpos).2.2
  · rw [tick_still f (by simpa [or_iff_not_imp_left] using hmoves)]
    exact h

/-! ## Runs -/

/-- An operation of a field of pulses. -/
inductive Operation : Type 1 where
  | sync {γ : Type} [Generator γ] (input : GraphInput) (random : γ)
  | tick (dt speed : Float32)

/-- The graph that an operation retargets the pulses at. -/
def Operation.graph? : Operation → Option Graph
  | @Operation.sync _ _ input _ => some (.ofInput input)
  | .tick _ _ => none

/-- The graph that a run retargeted the pulses at last; none is like the empty graph. -/
def lastGraph (ops : List Operation) : Graph := ((ops.filterMap Operation.graph?).getLast?).getD .empty

def perform (f : PulseField) : Operation → PulseField
  | @Operation.sync _ _ input random => (f.sync (Graph.ofInput input) random).1
  | .tick dt speed => f.tick dt speed

def after (f : PulseField) (ops : List Operation) : PulseField := ops.foldl perform f

theorem after_inRange (ops : List Operation) : (empty.after ops).InRange := by
  induction ops using List.reverseRecOn with
  | nil => intro p hp; cases hp
  | append_singleton ops op ih =>
    rw [after, List.foldl_concat]
    cases op with
    | sync input random => exact sync_inRange ih _ random
    | tick dt speed => exact tick_inRange ih dt speed

theorem lastGraph_concat (ops : List Operation) (op : Operation) :
    lastGraph (ops ++ [op]) = op.graph?.getD (lastGraph ops) := by
  cases op with
  | sync input random => simp [lastGraph, Operation.graph?]
  | tick dt speed => simp [lastGraph, Operation.graph?]

/-- The pulses are on the links of the graph that they were last retargeted at, and on no others. -/
theorem after_links (ops : List Operation) :
    (empty.after ops).pulses.map Pulse.link = (lastGraph ops).links := by
  induction ops using List.reverseRecOn with
  | nil => rfl
  | append_singleton ops op ih =>
    rw [after, List.foldl_concat, lastGraph_concat]
    cases op with
    | sync input random => exact place_links _ _ random
    | tick dt speed => exact (tick_links _ dt speed).trans ih

theorem lastGraph_wellFormed (ops : List Operation) : (lastGraph ops).WellFormed := by
  induction ops using List.reverseRecOn with
  | nil => exact Graph.wellFormed_empty
  | append_singleton ops op ih =>
    rw [lastGraph_concat]
    cases op with
    | sync input random => exact Graph.ofInput_wellFormed input
    | tick dt speed => exact ih

/-- **Pulses stay on their links and on their way.** After every run from no pulses at all, by any
graphs, any random numbers and any frames, there is one pulse on each link of the last graph, in its
order, and every phase is a number from 0 up to but not including 1. Whatever comes next, a link
that is in the next graph as well keeps its phase, and each new link takes one number from that
range, in link order, while no others are drawn. A frame whose advance is not finite or not positive
changes nothing. After any other frame every phase is the sum of phase and advance without its whole
part: the sum is rounded, but to no infinity, and what is taken away from it is taken away exactly. -/
theorem phases_stay (ops : List Operation) :
    let f := empty.after ops
    f.pulses.map Pulse.link = (lastGraph ops).links ∧ (f.pulses.map Pulse.link).Nodup ∧
    (∀ p ∈ f.pulses, p.phase.isFinite ∧ 0 ≤ p.phase ∧ p.phase < 1) ∧
    (∀ {γ : Type} [Generator γ] (input : GraphInput) (g : γ),
      let graph := Graph.ofInput input
      let later := (f.sync graph g).1
      (∀ link p, link ∈ graph.links → f.phase? link = some p → later.phase? link = some p) ∧
        (f.newPulses later).map Pulse.link = f.newLinks graph ∧
        Random.draws 0 1 (f.newLinks graph).length g =
          ((f.newPulses later).map Pulse.phase, (f.sync graph g).2)) ∧
    ∀ dt speed : Float32,
      ((dt * speed).isFinite = false ∨ ¬ 0 < dt * speed → f.tick dt speed = f) ∧
      ((dt * speed).isFinite → 0 < dt * speed →
        f.tick dt speed =
          ⟨f.pulses.map fun p => { p with phase := Scalar.fract (p.phase + dt * speed) }⟩ ∧
        ∀ p ∈ f.pulses, (p.phase + dt * speed).isFinite ∧
          grains (Scalar.fract (p.phase + dt * speed)) =
            grains (p.phase + dt * speed) % grains 1) := by
  intro f
  have hrange : f.InRange := after_inRange ops
  have hlinks := after_links ops
  refine ⟨hlinks, hlinks ▸ (lastGraph_wellFormed ops).links_nodup, hrange, fun input g =>
    ⟨fun link p => sync_phase? f g, newPulses_sync f _ g⟩, fun dt speed =>
    ⟨tick_still f, fun hfin hpos => ⟨tick_moves f hfin hpos, fun p hp => ?_⟩⟩⟩
  obtain ⟨hsum, hgrains, -⟩ := moved_phase (hrange p hp) hfin hpos
  exact ⟨hsum, hgrains⟩

end TracePlayback.PulseField
