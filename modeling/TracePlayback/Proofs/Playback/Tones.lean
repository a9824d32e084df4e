import TracePlayback.Proofs.Playback.Firing

/-!
# One tone per visit

The timeline returns what it shows to its caller and sounds the visits among it into its sink, side
by side, in every loop that any call runs. The caller sees the one stream, a sink the other.

* `fire_sink`, `fire_shows`: a turn sounds the visits that it returns, if audio is on, and they are
  visits of nodes of the graph that is installed.
* `perform_sink`: so does a call, into the sink that its edit has left.
* `tones_receive_recorder`: a recorder keeps every tone that it receives.
* `one_tone_per_visit`: over a whole run, each of its sinks has received the tones of the visits that
  were returned while it was there and audio was on.
-/
namespace TracePlayback

/-- The tones of the visits among some events. -/
def tonesOf (events : List Event) : List Tone := events.filterMap (·.step.tone?)

theorem tonesOf_append (a b : List Event) : tonesOf (a ++ b) = tonesOf a ++ tonesOf b :=
  List.filterMap_append

/-- A visit is one of a node of the graph, and tells its kind. -/
def Step.Shows (g : Graph) : Step → Prop
  | .visit id kind _ => ∃ node ∈ g.nodes, node.id = id ∧ node.kind = kind
  | .traverse _ _ _ => True
  | .finished => True

/-- A sink after it has received some tones. -/
def Sink.receive (s : Sink) (tones : List Tone) : Sink := tones.foldl Sink.trigger s

theorem Sink.receive_append (s : Sink) (a b : List Tone) :
    s.receive (a ++ b) = (s.receive a).receive b := List.foldl_append

theorem Sink.receive_silent (tones : List Tone) : receive .silent tones = .silent := by
  induction tones with
  | nil => rfl
  | cons tone rest ih => exact ih

/-- A recorder keeps what it holds and adds every tone that it receives, in order. -/
theorem Sink.tones_receive_recorder (held : Array Tone) (tones : List Tone) :
    (receive (.recorder held) tones).tones = held.toList ++ tones := by
  induction tones generalizing held with
  | nil => exact (List.append_nil _).symm
  | cons tone rest ih =>
    calc (receive (.recorder held) (tone :: rest)).tones
      _ = (held.push tone).toList ++ rest := ih (held.push tone)
      _ = held.toList ++ tone :: rest := by simp

namespace Timeline

/-! ## One turn -/

theorem fire_audio {t : Timeline} {name : ChannelName} {due : Nat}
    (hd : (t.channel name).due = some due) : (t.fire name due).2.audio = t.audio := by
  rw [fire_eq hd]
  split
  · rfl
  · cases name <;> rfl

/-- A turn sounds what it returns. -/
theorem fire_sink {t : Timeline} {name : ChannelName} {due : Nat}
    (hd : (t.channel name).due = some due) :
    (t.fire name due).2.sink =
      t.sink.receive (if t.audio.enabled then tonesOf (t.fire name due).1 else []) := by
  rw [fire_eq hd]
  split
  · cases t.audio.enabled <;> rfl
  · rename_i time steps c _
    have htones : tonesOf (steps.map fun step => ⟨name, due, step⟩) =
        steps.filterMap Step.tone? := List.filterMap_map
    simp only [htones, sinkAfter]
    split <;> rfl

theorem fire_shows {t : Timeline} {name : ChannelName} {due : Nat}
    (hd : (t.channel name).due = some due) : ∀ e ∈ (t.fire name due).1, e.step.Shows t.graph := by
  intro e he
  rw [fire_eq hd] at he
  split at he
  · cases he
  rename_i time steps c hf
  obtain ⟨step, hstep, rfl⟩ := List.mem_map.mp he
  obtain ⟨-, -, trace, -, ⟨i, -, hp⟩ | ⟨-, hp⟩⟩ := Channel.fire?_cases hf
  · obtain ⟨node, hnode, ⟨revisit, rfl⟩ | ⟨source, linked, rfl⟩⟩ := Channel.mem_play hp hstep
    · exact ⟨node, hnode, rfl, rfl⟩
    · trivial
  · obtain ⟨rfl, -⟩ := Prod.mk.inj hp
    obtain rfl := List.mem_singleton.mp hstep
    trivial

/-! ## One call -/

theorem edit_audio (t : Timeline) (op : Operation) :
    (t.edit op).audio = match op with
      | .setAudio audio => audio
      | _ => t.audio := by
  cases op with
  | bind name trace => cases name <;> rfl
  | setLooping name looping => cases name <;> rfl
  | _ => rfl

theorem edit_sink (t : Timeline) (op : Operation) :
    (t.edit op).sink = match op with
      | .setSink sink => sink
      | _ => t.sink := by
  cases op with
  | bind name trace => cases name <;> rfl
  | setLooping name looping => cases name <;> rfl
  | _ => rfl

/-- A call sounds what it returns. -/
theorem perform_sink (t : Timeline) (op : Operation) :
    (t.perform op).2.audio = (t.edit op).audio ∧
      (t.perform op).2.sink = (t.edit op).sink.receive
        (if (t.edit op).audio.enabled then tonesOf (t.perform op).1 else []) := by
  refine perform_accumulates (P := fun shown u => u.audio = (t.edit op).audio ∧
    u.sink = (t.edit op).sink.receive (if (t.edit op).audio.enabled then tonesOf shown else []))
    ?_ (fun _ _ _ h _ => h) [] ⟨rfl, by split <;> rfl⟩
  rintro shown u name due ⟨haudio, hsink⟩ he -
  have hd := earliest?_due he
  refine ⟨(fire_audio hd).trans haudio, ?_⟩
  rw [fire_sink hd, haudio, hsink, ← Sink.receive_append, tonesOf_append]
  split <;> rfl

/-! ## Whole runs -/

/-- The sinks of a run, each as it is when it is replaced, the last one as it is at the end. -/
def sinks (t : Timeline) : List Operation → List Sink
  | [] => [t.sink]
  | .setSink sink :: ops => t.sink :: (t.perform (.setSink sink)).2.sinks ops
  | op :: ops => (t.perform op).2.sinks ops

end Timeline

/-- A sink as it was when it was installed, and the events that were returned from then on while
audio was on. -/
structure Stay where
  sink : Sink
  heard : List Event

/-- The stays of the sinks of a run, given the one that has begun, whether audio is on, and the calls
with the events that they return. -/
def stays (stay : Stay) (audible : Bool) : List (Operation × List Event) → List Stay
  | [] => [stay]
  | (.setSink sink, _) :: calls => stay :: stays ⟨sink, []⟩ audible calls
  | (.setAudio audio, _) :: calls => stays stay audio.enabled calls
  | (_, events) :: calls =>
    stays { stay with heard := stay.heard ++ if audible then events else [] } audible calls

/-- What the sink is at the end of its stay, if it receives one tone for every visit. -/
def Stay.left (stay : Stay) : Sink := stay.sink.receive (tonesOf stay.heard)

/-- The tones in the sink at the end of its stay, if it records one for every visit: a recorder has
them after those that it held before, a silent sink has none. -/
def Stay.recorded (stay : Stay) : List Tone :=
  match stay.sink with
  | .silent => []
  | .recorder held => held.toList ++ tonesOf stay.heard

theorem Stay.tones_left (stay : Stay) : stay.left.tones = stay.recorded := by
  unfold left recorded
  cases stay.sink with
  | silent => rw [Sink.receive_silent]; rfl
  | recorder held => exact Sink.tones_receive_recorder held _

namespace Timeline

theorem sinks_eq_stays (t : Timeline) (ops : List Operation) (stay : Stay)
    (h : t.sink = stay.left) :
    t.sinks ops = (stays stay t.audio.enabled (t.calls ops)).map Stay.left := by
  induction ops generalizing t stay with
  | nil => exact congrArg (· :: []) h
  | cons op ops ih =>
    obtain ⟨haudio, hsink⟩ := perform_sink t op
    rw [edit_audio] at haudio hsink
    rw [edit_sink] at hsink
    have hnext := ih (t.perform op).2
    rw [haudio, hsink] at hnext
    cases op with
    | setSink sink =>
      simp only [sinks, calls, stays, List.map_cons, h]
      exact congrArg _ (hnext ⟨sink, []⟩ (by cases t.audio.enabled <;> rfl))
    | setAudio audio => exact hnext stay (by rw [← h]; cases audio.enabled <;> rfl)
    | _ =>
      refine hnext _ ?_
      simp only [Stay.left, h, tonesOf_append, Sink.receive_append]
      cases t.audio.enabled <;> rfl

/-- **One tone per visit, nothing else.** Over every run, from any timeline:

* each sink, when it is replaced or the run ends, has received in order the tones of the visits, also
  of those that are revisits, among the events returned while it was there and audio was on;
* so a recorder then holds just these tones, in that order, after those that it was installed with;
* all events are returned by turns of the loop, and no turn sounds anything but the visits that it
  returns itself;
* and each visit is of a node of the graph that is installed when the turn is taken, and of its
  kind. -/
theorem one_tone_per_visit (t : Timeline) (ops : List Operation) :
    t.sinks ops =
        (stays ⟨t.sink, []⟩ t.audio.enabled (t.calls ops)).map (fun stay =>
          stay.sink.receive (tonesOf stay.heard)) ∧
      (t.sinks ops).map Sink.tones =
        (stays ⟨t.sink, []⟩ t.audio.enabled (t.calls ops)).map Stay.recorded ∧
      (t.calls ops).flatMap (·.2) = (t.firings ops).flatMap Firing.events ∧
      ∀ x ∈ t.firings ops,
        x.after.sink =
            x.before.sink.receive (if x.before.audio.enabled then tonesOf x.events else []) ∧
          ∀ e ∈ x.events, e.step.Shows x.before.graph := by
  have hsinks := sinks_eq_stays t ops ⟨t.sink, []⟩ rfl
  have htones : (t.sinks ops).map Sink.tones =
      (stays ⟨t.sink, []⟩ t.audio.enabled (t.calls ops)).map Stay.recorded := by
    rw [hsinks, List.map_map]
    exact List.map_congr_left fun stay _ => stay.tones_left
  refine ⟨hsinks, htones, calls_firings t ops, fun x hx => ?_⟩
  have hd := (firings_invariant (P := fun _ => True) (fun _ _ _ => trivial)
    (fun _ _ _ _ _ => trivial) ops (fun _ _ _ _ => trivial) trivial x hx).2
  exact ⟨fire_sink hd, fire_shows hd⟩

/-- Two recorders, and a pause of the audio in the second one. -/
example :
    let ops := [.setGraph .pair, .bind .live (some (.live ⟨#[1, 1, 2]⟩)),
      .setSink (.recorder #[]), .advanceTo 500, .setAudio { enabled := false }, .advanceTo 1000,
      .setAudio {}, .setLooping .live true, .advanceTo 1500]
    ((new {} {} (.recorder #[])).sinks ops).map Sink.tones =
      [[.ofKind .function], [.ofKind .function, .ofKind .function]] := by
  decide

end Timeline
end TracePlayback
