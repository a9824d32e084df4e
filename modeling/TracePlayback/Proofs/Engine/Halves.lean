import TracePlayback.Proofs.Engine.Operation

/-!
# Two halves that do not look at each other

An engine has two halves. The `Player` is the timeline with the clock it runs on; the `Scene` is what
moves with the frames, and the random numbers it takes. A graph that is loaded reaches both, every
other operation reaches one. A half of a run is then the same for all runs that tell this half the
same, whatever they tell the other one in between.

* `perform_player`, `perform_scene`: what an operation does to a half depends on that half only.
* `perform_player_frame`, `perform_scene_frame`: an operation for the other half leaves it alone.
* `history_player`, `history_scene`: so operations for the other half may be left out of a run.
* `halves_independent`: two runs that differ in them only agree on the half, call by call.
-/
namespace TracePlayback
namespace Engine

namespace Operation

/-- Whether an operation reaches the timeline: all but the ticks do. -/
def plays : Operation → Bool
  | .tickFrame _ => false
  | _ => true

/-- Whether an operation reaches the layout: a graph does, and a tick. -/
def moves : Operation → Bool
  | .apply (.graph _) => true
  | .loadGraph _ => true
  | .tickFrame _ => true
  | _ => false

end Operation

/-- The half of an engine that plays the traces. -/
structure Player where
  timeline : Timeline
  clock : Nat

/-- The half of an engine that moves with the frames. -/
structure Scene (γ : Type) where
  settings : Settings
  layout : Layout
  pulses : PulseField
  random : γ

variable {γ δ : Type}

def player (e : Engine γ) : Player := ⟨e.timeline, e.clock⟩

def scene (e : Engine γ) : Scene γ := ⟨e.settings, e.layout, e.pulses, e.random⟩

/-- The timeline is called with nothing but the operation, and the time on the clock. -/
theorem call?_congr {e : Engine γ} {e' : Engine δ} (h : e'.clock = e.clock) (op : Operation) :
    e'.call? op = e.call? op := by
  cases op with
  | apply feed => cases feed <;> rfl
  | advancePlayback nanos => simp only [call?, h]
  | _ => rfl

/-! ## The calls of a run -/

/-- A call of a run: the operation, the events it returned, and the engine after it. -/
structure Call (γ : Type) where
  op : Operation
  events : List Event
  engine : Engine γ

/-- What the calls return that reach the timeline, and the player after each of them. The others
return nothing (`perform_player_frame`). -/
def heard (calls : List (Call γ)) : List (Operation × List Event × Player) :=
  (calls.filter (·.op.plays)).map fun call => (call.op, call.events, call.engine.player)

/-- The scene after each call that reaches it. -/
def seen (calls : List (Call γ)) : List (Operation × Scene γ) :=
  (calls.filter (·.op.moves)).map fun call => (call.op, call.engine.scene)

theorem heard_cons (call : Call γ) (calls : List (Call γ)) :
    heard (call :: calls) =
      if call.op.plays then (call.op, call.events, call.engine.player) :: heard calls
      else heard calls := by
  unfold heard
  rw [List.filter_cons]
  split <;> rfl

theorem seen_cons (call : Call γ) (calls : List (Call γ)) :
    seen (call :: calls) =
      if call.op.moves then (call.op, call.engine.scene) :: seen calls else seen calls := by
  unfold seen
  rw [List.filter_cons]
  split <;> rfl

variable [Generator γ] [Generator δ]

/-- The calls of a run in order, and the engine after it. -/
def history (e : Engine γ) : List Operation → Except EngineError (List (Call γ) × Engine γ)
  | [] => pure ([], e)
  | op :: ops => do
    let (events, next) ← e.perform op
    let (calls, last) ← next.history ops
    pure (⟨op, events, next⟩ :: calls, last)

theorem history_cons_ok {e last : Engine γ} {op : Operation} {ops : List Operation}
    {calls : List (Call γ)} :
    e.history (op :: ops) = .ok (calls, last) ↔
      ∃ events next rest, e.perform op = .ok (events, next) ∧ next.history ops = .ok (rest, last) ∧
        calls = ⟨op, events, next⟩ :: rest := by
  simp only [history, bind_eq_ok, pure, Except.pure, Except.ok.injEq, Prod.mk.injEq]
  constructor
  · rintro ⟨⟨events, next⟩, hop, ⟨rest, _⟩, hrest, rfl, rfl⟩
    exact ⟨events, next, rest, hop, hrest, rfl⟩
  · rintro ⟨events, next, rest, hop, hrest, rfl⟩
    exact ⟨(events, next), hop, (rest, last), hrest, rfl, rfl⟩

theorem history_of_run {ops : List Operation} {e last : Engine γ} {events : List Event}
    (h : e.run ops = .ok (events, last)) :
    ∃ calls, e.history ops = .ok (calls, last) ∧ calls.flatMap Call.events = events := by
  induction ops generalizing e events with
  | nil => cases h; exact ⟨[], rfl, rfl⟩
  | cons op ops ih =>
    obtain ⟨first, more, next, hop, hrest, rfl⟩ := run_cons_ok.mp h
    obtain ⟨calls, hcalls, rfl⟩ := ih hrest
    exact ⟨_, history_cons_ok.mpr ⟨first, next, calls, hop, hcalls, rfl⟩, rfl⟩

theorem history_new (settings : Settings) (sink : Sink) (random : γ) {ops : List Operation}
    (hfit : played ops ≤ Clock.maxNanos) :
    ∃ calls last, (new settings sink random).history ops = .ok (calls, last) := by
  have hclock : (new settings sink random).clock = 0 := rfl
  obtain ⟨events, last, h⟩ := (run_isOk (e := new settings sink random) (Nat.zero_le _) ops).mpr
    (by rw [hclock]; omega)
  obtain ⟨calls, hcalls, -⟩ := history_of_run h
  exact ⟨calls, last, hcalls⟩

/-! ## The player -/

theorem perform_isOk_congr {e next : Engine γ} {e' : Engine δ} (h : e'.clock = e.clock)
    {op : Operation} {events : List Event} (hop : e.perform op = .ok (events, next)) :
    ∃ events' next', e'.perform op = .ok (events', next') := by
  cases op with
  | advancePlayback nanos =>
    simp only [perform, advancePlayback, h] at hop ⊢
    split at hop
    · cases hop
    · rename_i hfit
      rw [if_neg hfit]
      exact ⟨_, _, rfl⟩
  | _ => exact ⟨_, _, rfl⟩

/-- What an operation returns and does to the player depends on the player only. -/
theorem perform_player {e next : Engine γ} {e' : Engine δ} (h : e'.player = e.player)
    {op : Operation} {events : List Event} (hop : e.perform op = .ok (events, next)) :
    ∃ next', e'.perform op = .ok (events, next') ∧ next'.player = next.player := by
  obtain ⟨htimeline, hclock⟩ := Player.mk.inj h
  obtain ⟨events', next', hop'⟩ := perform_isOk_congr hclock hop
  obtain ⟨hcall, hnext, -⟩ := perform_ok hop
  obtain ⟨hcall', hnext', -⟩ := perform_ok hop'
  rw [call?_congr hclock, htimeline, ← hcall] at hcall'
  obtain ⟨rfl, hsame⟩ := Prod.mk.inj hcall'
  refine ⟨next', hop', ?_⟩
  unfold player
  rw [hsame, hnext, hnext', hclock]

theorem perform_player_frame {e next : Engine γ} {op : Operation} {events : List Event}
    (hop : e.perform op = .ok (events, next)) (hp : op.plays = false) :
    events = [] ∧ next.player = e.player := by
  cases op with
  | tickFrame dt => cases hop; exact ⟨rfl, rfl⟩
  | _ => cases hp

/-- The ticks can be left out of a run, and everything but the player can be another one. -/
theorem history_player (e' : Engine δ) {ops : List Operation} {e last : Engine γ}
    {calls : List (Call γ)} (h : e'.player = e.player) (hrun : e.history ops = .ok (calls, last)) :
    ∃ calls' last', e'.history (ops.filter (·.plays)) = .ok (calls', last') ∧
      heard calls' = heard calls ∧ last'.player = last.player := by
  induction ops generalizing e e' calls with
  | nil => cases hrun; exact ⟨[], e', rfl, rfl, h⟩
  | cons op ops ih =>
    obtain ⟨events, next, rest, hop, hrest, rfl⟩ := history_cons_ok.mp hrun
    rw [heard_cons]
    cases hp : op.plays with
    | true =>
      obtain ⟨next', hop', hnext⟩ := perform_player h hop
      obtain ⟨calls', last', hrest', hheard, hlast⟩ := ih next' hnext hrest
      rw [List.filter_cons_of_pos hp]
      refine ⟨_, last', history_cons_ok.mpr ⟨events, next', calls', hop', hrest', rfl⟩, ?_, hlast⟩
      rw [heard_cons]
      simp only [hp, if_true, hheard, hnext]
    | false =>
      rw [List.filter_cons_of_neg (by simp [hp])]
      exact ih e' (h.trans (perform_player_frame hop hp).2.symm) hrest

theorem player_eq_of_history {ops ops' : List Operation} {e last : Engine γ} {e' last' : Engine δ}
    {calls : List (Call γ)} {calls' : List (Call δ)} (h : e'.player = e.player)
    (hops : ops'.filter (·.plays) = ops.filter (·.plays))
    (hrun : e.history ops = .ok (calls, last)) (hrun' : e'.history ops' = .ok (calls', last')) :
    heard calls' = heard calls ∧ last'.player = last.player := by
  -- both are the run of `e` that leaves the ticks out
  obtain ⟨kept, end₁, hkept, hheard, hlast⟩ := history_player e rfl hrun
  obtain ⟨kept', end₂, hkept', hheard', hlast'⟩ := history_player e h.symm hrun'
  rw [hops, hkept] at hkept'
  obtain ⟨rfl, rfl⟩ := Prod.mk.inj (Except.ok.inj hkept')
  exact ⟨hheard'.symm.trans hheard, hlast'.symm.trans hlast⟩

/-! ## The scene -/

/-- What an operation for the scene does to it depends on the scene only. -/
theorem perform_scene {e e' next : Engine γ} (h : e'.scene = e.scene) {op : Operation}
    {events : List Event} (hop : e.perform op = .ok (events, next)) (hm : op.moves = true) :
    ∃ events' next', e'.perform op = .ok (events', next') ∧ next'.scene = next.scene := by
  obtain ⟨settings, graph, layout, pulses, timeline, clock, random⟩ := e
  obtain ⟨settings', graph', layout', pulses', timeline', clock', random'⟩ := e'
  obtain ⟨rfl, rfl, rfl, rfl⟩ := Scene.mk.inj h
  cases op with
  | apply feed =>
    cases feed with
    | graph input => cases hop; exact ⟨_, _, rfl, rfl⟩
    | _ => cases hm
  | loadGraph input => cases hop; exact ⟨_, _, rfl, rfl⟩
  | tickFrame dt => cases hop; exact ⟨_, _, rfl, rfl⟩
  | _ => cases hm

theorem perform_scene_frame {e next : Engine γ} {op : Operation} {events : List Event}
    (hop : e.perform op = .ok (events, next)) (hm : op.moves = false) : next.scene = e.scene := by
  cases op with
  | apply feed =>
    cases feed with
    | graph input => cases hm
    | _ => cases hop; rfl
  | advancePlayback nanos =>
    simp only [perform, advancePlayback] at hop
    split at hop
    · cases hop
    · cases hop; rfl
  | loadGraph input => cases hm
  | tickFrame dt => cases hm
  | _ => cases hop; rfl

/-- What only plays can be left out of a run, and everything but the scene can be another one. -/
theorem history_scene (e' : Engine γ) {ops : List Operation} {e last : Engine γ}
    {calls : List (Call γ)} (h : e'.scene = e.scene) (hrun : e.history ops = .ok (calls, last)) :
    ∃ calls' last', e'.history (ops.filter (·.moves)) = .ok (calls', last') ∧
      seen calls' = seen calls ∧ last'.scene = last.scene := by
  induction ops generalizing e e' calls with
  | nil => cases hrun; exact ⟨[], e', rfl, rfl, h⟩
  | cons op ops ih =>
    obtain ⟨events, next, rest, hop, hrest, rfl⟩ := history_cons_ok.mp hrun
    rw [seen_cons]
    cases hm : op.moves with
    | true =>
      obtain ⟨events', next', hop', hnext⟩ := perform_scene h hop hm
      obtain ⟨calls', last', hrest', hseen, hlast⟩ := ih next' hnext hrest
      rw [List.filter_cons_of_pos hm]
      refine ⟨_, last', history_cons_ok.mpr ⟨events', next', calls', hop', hrest', rfl⟩, ?_, hlast⟩
      rw [seen_cons]
      simp only [hm, if_true, hseen, hnext]
    | false =>
      rw [List.filter_cons_of_neg (by simp [hm])]
      exact ih e' (h.trans (perform_scene_frame hop hm).symm) hrest

theorem scene_eq_of_history {ops ops' : List Operation} {e e' last last' : Engine γ}
    {calls calls' : List (Call γ)} (h : e'.scene = e.scene)
    (hops : ops'.filter (·.moves) = ops.filter (·.moves))
    (hrun : e.history ops = .ok (calls, last)) (hrun' : e'.history ops' = .ok (calls', last')) :
    seen calls' = seen calls ∧ last'.scene = last.scene := by
  obtain ⟨kept, end₁, hkept, hseen, hlast⟩ := history_scene e rfl hrun
  obtain ⟨kept', end₂, hkept', hseen', hlast'⟩ := history_scene e h.symm hrun'
  rw [hops, hkept] at hkept'
  obtain ⟨rfl, rfl⟩ := Prod.mk.inj (Except.ok.inj hkept')
  exact ⟨hseen'.symm.trans hseen, hlast'.symm.trans hlast⟩

/-! ## Both -/

/-- **Neither half looks at the other.** Take two runs with the same settings that the clock can hold.

* If they differ in their ticks and in their random numbers only, every other call returns the same
  events and leaves the same timeline, with the same tones.
* If they differ in what is played and in where the tones go only, every call that moves the scene
  leaves the same layout, the same pulses and the same random numbers. -/
theorem halves_independent (settings : Settings) (ops ops' : List Operation)
    (hfit : played ops ≤ Clock.maxNanos) (hfit' : played ops' ≤ Clock.maxNanos) :
    (ops'.filter (·.plays) = ops.filter (·.plays) →
      ∀ (sink : Sink) (random : γ) (random' : δ), ∃ calls last calls' last',
        (new settings sink random).history ops = .ok (calls, last) ∧
        (new settings sink random').history ops' = .ok (calls', last') ∧
        heard calls' = heard calls ∧ last'.player = last.player) ∧
    (ops'.filter (·.moves) = ops.filter (·.moves) →
      ∀ (sink sink' : Sink) (random : γ), ∃ calls last calls' last',
        (new settings sink random).history ops = .ok (calls, last) ∧
        (new settings sink' random).history ops' = .ok (calls', last') ∧
        seen calls' = seen calls ∧ last'.scene = last.scene) := by
  constructor
  · intro hops sink random random'
    obtain ⟨calls, last, hrun⟩ := history_new settings sink random hfit
    obtain ⟨calls', last', hrun'⟩ := history_new settings sink random' hfit'
    exact ⟨calls, last, calls', last', hrun, hrun', player_eq_of_history rfl hops hrun hrun'⟩
  · intro hops sink sink' random
    obtain ⟨calls, last, hrun⟩ := history_new settings sink random hfit
    obtain ⟨calls', last', hrun'⟩ := history_new settings sink' random hfit'
    have hstart : (new settings sink' random).scene = (new settings sink random).scene := rfl
    exact ⟨calls, last, calls', last', hrun, hrun', scene_eq_of_history hstart hops hrun hrun'⟩

/-- A graph is loaded and two traces are played: with ticks and with others in between, and with the
playing left out. -/
theorem halves_independent_pair :
    let input : GraphInput := ⟨[⟨.text "f", .function, "f", some 1⟩, ⟨.number 2, .loop, "l", some 2⟩],
      [⟨.text "f", .number 2⟩], none⟩
    let ops := [.tickFrame 0.5, .apply (.graph input), .apply (.liveTrace ⟨#[1, 2]⟩), .tickFrame 0.25,
      .advancePlayback 600000000, .setLooping .live true, .advancePlayback 999]
    let unticked := [.apply (.graph input), .apply (.liveTrace ⟨#[1, 2]⟩), .advancePlayback 600000000,
      .setLooping .live true, .tickFrame 0.125, .advancePlayback 999]
    let unplayed := [.tickFrame 0.5, .setSink .silent, .apply (.graph input), .tickFrame 0.25,
      .advancePlayback 7]
    played ops ≤ Clock.maxNanos ∧ played unticked ≤ Clock.maxNanos ∧
      played unplayed ≤ Clock.maxNanos ∧
      unticked.filter (·.plays) = ops.filter (·.plays) ∧
      unplayed.filter (·.moves) = ops.filter (·.moves) ∧
      (∃ calls last calls' last',
        (new {} (.recorder #[]) (WordSource.mk [7])).history ops = .ok (calls, last) ∧
        (new {} (.recorder #[]) (WordSource.mk [])).history unticked = .ok (calls', last') ∧
        heard calls' = heard calls ∧ last'.player = last.player) ∧
      ∃ calls last calls' last',
        (new {} (.recorder #[]) (WordSource.mk [7])).history ops = .ok (calls, last) ∧
        (new {} .silent (WordSource.mk [7])).history unplayed = .ok (calls', last') ∧
        seen calls' = seen calls ∧ last'.scene = last.scene := by
  intro input ops unticked unplayed
  have hfit : played ops ≤ Clock.maxNanos := by decide
  have hticks : played unticked ≤ Clock.maxNanos := by decide
  have hplays : played unplayed ≤ Clock.maxNanos := by decide
  refine ⟨hfit, hticks, hplays, rfl, rfl, ?_, ?_⟩
  · exact (halves_independent (δ := WordSource) {} ops unticked hfit hticks).1 rfl (.recorder #[])
      (WordSource.mk [7]) (WordSource.mk [])
  · exact (halves_independent (δ := WordSource) {} ops unplayed hfit hplays).2 rfl (.recorder #[])
      .silent (WordSource.mk [7])

end Engine
end TracePlayback
