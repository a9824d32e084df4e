import TracePlayback.Proofs.Engine.Operation
import TracePlayback.Proofs.Playback.Programme
import TracePlayback.Replay.Basic

/-!
# Replays frame by frame

A replay feeds the engine the graph and the traces of its job, and then plays one frame after the
other until `next` says that it has ended. What it logs is what its timeline shows.

* `logged`: the events in the log.
* `next_ok`, `next_error`: what a frame does, and why there is none.
* `Follows`: what is true of a replay between two frames. Its timeline is performing the programme of
  the job up to the time played, and the playback clock shows the same time.
* `ofJob_follows`, `Follows.frame`: it is true at the start, and a frame keeps it.
* `Reaches`: the loop over the frames, without a count of them. `Reaches.play`: `play` is that loop,
  if it is given more frames than there are.
* `ends_of_rank`: a loop in which every frame lowers a rank comes to its end.
-/
namespace TracePlayback

/-- The event that a note reports, if it reports one. -/
def Note.event? : Note → Option Event
  | .event e => some e
  | _ => none

def Job.trace? (j : Job) : ChannelName → Option Trace
  | .live => j.live.map Trace.live
  | .ghost => j.ghost.map Trace.ghost

theorem Clock.millis_mul (ms : Nat) : Clock.millis (ms * 1000000) = min ms Clock.last := by
  rw [Clock.millis, Nat.mul_div_cancel ms (by decide)]

namespace Replay

variable {γ : Type}

/-! ## The log -/

/-- The events in the log. -/
def logged (r : Replay γ) : List Event := r.log.toList.filterMap Note.event?

theorem advanceNotes_silent (events : List Event) (t : Timeline) :
    (advanceNotes events t).filterMap Note.event? = [] := by
  refine List.filterMap_eq_nil_iff.mpr fun note hnote => ?_
  rcases List.mem_append.mp hnote with h | h
  · obtain ⟨e, -, he⟩ := List.mem_filterMap.mp h
    split at he
    · cases he; rfl
    · cases he
  · split at h
    · split at h
      · rw [List.mem_singleton.mp h]; rfl
      · cases h
    · cases h

theorem graphNotes_silent (input : GraphInput) (l : Layout) :
    (graphNotes input l).filterMap Note.event? = [] := by
  simp only [graphNotes, List.filterMap_append, List.append_eq_nil_iff]
  refine ⟨⟨⟨?_, ?_⟩, ?_⟩, rfl⟩
  · cases input.error <;> rfl
  · exact List.filterMap_eq_nil_iff.mpr fun note hnote => by
      obtain ⟨id, -, rfl⟩ := List.mem_map.mp hnote
      rfl
  · split <;> rfl

theorem feedNotes_silent (e : Engine γ) (f : Feed) :
    (feedNotes e f).filterMap Note.event? = [] := by
  cases f with
  | graph input => exact graphNotes_silent input e.layout
  | _ => rfl

/-- A replay logs what its timeline has shown, and goes on with that timeline. Only the sink is
another one, as its tones are in the log. -/
structure Logs (shown : List Event × Timeline) (r r' : Replay γ) : Prop where
  limit : r'.limit = r.limit
  timeline : ∃ sink, r'.engine.timeline = shown.2.setSink sink
  logged : r'.logged = r.logged ++ shown.1

theorem record_logs (r : Replay γ) {notes : List Note}
    (hnotes : notes.filterMap Note.event? = []) (shown : List Event × Engine γ) :
    Logs (shown.1, shown.2.timeline) r (r.record notes shown) where
  limit := rfl
  timeline := ⟨_, rfl⟩
  logged := by
    have hevents : (shown.1.map Note.event).filterMap Note.event? = shown.1 := by
      rw [List.filterMap_map]
      exact List.filterMap_some
    have htones (tones : List Tone) : (tones.map Note.tone).filterMap Note.event? = [] := by
      rw [List.filterMap_map]
      exact List.filterMap_eq_nil_iff.mpr fun _ _ => rfl
    simp only [Replay.logged, record, Array.toList_appendList, List.filterMap_append, hnotes,
      advanceNotes_silent, hevents, htones, List.append_nil]

variable {s : PlaybackSettings} {g : Graph} {traces : ChannelName → Option Trace}
  {r r' last : Replay γ} {shown : List Event × Timeline} {time : Nat}

theorem Logs.performing (h : Logs shown r r')
    (hp : Timeline.Performing s g traces time (r.logged ++ shown.1) shown.2) :
    Timeline.Performing s g traces time r'.logged r'.engine.timeline := by
  obtain ⟨sink, htimeline⟩ := h.timeline
  rw [h.logged, htimeline]
  exact hp.setSink sink

/-! ## Feeds and frames -/

variable [Generator γ]

theorem feed_logs (r : Replay γ) {f : Feed} {call : Operation}
    (hcall : r.engine.call? (.apply f) = some call) :
    Logs (r.engine.timeline.perform call) r (r.feed f) ∧ (r.feed f).elapsedMs = r.elapsedMs ∧
      (r.feed f).engine.clock = r.engine.clock := by
  have hperform : r.engine.perform (.apply f) = .ok ((r.engine.apply f).1, (r.engine.apply f).2) :=
    rfl
  obtain ⟨htimeline, hclock, -⟩ := Engine.perform_ok hperform
  have hlogs := r.record_logs (feedNotes_silent r.engine f) (r.engine.apply f)
  rw [htimeline, hcall] at hlogs
  exact ⟨hlogs, rfl, hclock⟩

theorem advance_ok {e : Engine γ} {dt : Float32} {nanos : Nat} {shown : List Event × Engine γ}
    (h : (e.tickFrame dt).advancePlayback nanos = .ok shown) :
    (shown.1, shown.2.timeline) = e.timeline.advanceTo (Clock.millis (e.clock + nanos)) ∧
      shown.2.clock = e.clock + nanos := by
  have hperform : (e.tickFrame dt).perform (.advancePlayback nanos) = .ok (shown.1, shown.2) := h
  obtain ⟨htimeline, hclock, -⟩ := Engine.perform_ok hperform
  exact ⟨htimeline, hclock⟩

omit [Generator γ] in
theorem advance_error {e : Engine γ} {dt : Float32} {nanos : Nat} {err : EngineError}
    (h : (e.tickFrame dt).advancePlayback nanos = .error err) :
    Clock.maxNanos < e.clock + nanos ∧ err = .clockOverflow := by
  unfold Engine.advancePlayback at h
  simp only at h
  split at h
  · rename_i hover
    cases h
    exact ⟨hover, rfl⟩
  · cases h

omit [Generator γ] in
/-- The three questions of a frame, in their order. -/
theorem next_eq (r : Replay γ) :
    r.next =
      if r.engine.timeline.isIdle then .error .idle
      else
        match r.limit.filter (· ≤ r.elapsedMs),
          (r.engine.tickFrame (Host.seconds frameNanos)).advancePlayback frameNanos with
        | some ms, _ => .error (.timeLimit ms)
        | none, .error e => .error (.failed e)
        | none, .ok shown => .ok { r.record [] shown with elapsedMs := r.elapsedMs + frameMs } := by
  unfold next
  cases r.limit.filter (· ≤ r.elapsedMs) with
  | some ms => rfl
  | none =>
    generalize (r.engine.tickFrame (Host.seconds frameNanos)).advancePlayback frameNanos = played
    cases played with
    | error e => rfl
    | ok shown => rfl

/-- What a frame does, and what must be so that it is played. -/
theorem next_ok (h : r.next = .ok r') :
    r.engine.timeline.isIdle = false ∧ (∀ ms, r.limit = some ms → r.elapsedMs < ms) ∧
      Logs (r.engine.timeline.advanceTo (Clock.millis (r.engine.clock + frameNanos))) r r' ∧
      r'.elapsedMs = r.elapsedMs + frameMs ∧ r'.engine.clock = r.engine.clock + frameNanos := by
  rw [next_eq] at h
  cases hidle : r.engine.timeline.isIdle with
  | true => rw [hidle, if_pos rfl] at h; cases h
  | false =>
    rw [hidle, if_neg Bool.false_ne_true] at h
    cases hlimit : r.limit.filter (· ≤ r.elapsedMs) with
    | some ms => rw [hlimit] at h; cases h
    | none =>
      rw [hlimit] at h
      cases hplayed : (r.engine.tickFrame (Host.seconds frameNanos)).advancePlayback frameNanos with
      | error e => rw [hplayed] at h; cases h
      | ok shown =>
        rw [hplayed] at h
        obtain ⟨htimeline, hclock⟩ := advance_ok hplayed
        have hlogs := r.record_logs List.filterMap_nil shown
        rw [htimeline] at hlogs
        obtain rfl := Except.ok.inj h
        refine ⟨rfl, fun ms hms => ?_, ⟨hlogs.limit, hlogs.timeline, hlogs.logged⟩, rfl, hclock⟩
        rw [hms, Option.filter_eq_none_iff] at hlimit
        simpa using hlimit ms rfl

omit [Generator γ] in
theorem next_error {ending : Ending} (h : r.next = .error ending) :
    (r.engine.timeline.isIdle = true ∧ ending = .idle) ∨
      (∃ ms, r.limit = some ms ∧ ms ≤ r.elapsedMs ∧ ending = .timeLimit ms) ∨
      (Clock.maxNanos < r.engine.clock + frameNanos ∧ ending = .failed .clockOverflow) := by
  rw [next_eq] at h
  cases hidle : r.engine.timeline.isIdle with
  | true =>
    rw [hidle, if_pos rfl] at h
    exact Or.inl ⟨rfl, (Except.error.inj h).symm⟩
  | false =>
    rw [hidle, if_neg Bool.false_ne_true] at h
    cases hlimit : r.limit.filter (· ≤ r.elapsedMs) with
    | some ms =>
      rw [hlimit] at h
      obtain ⟨hms, hle⟩ := Option.filter_eq_some_iff.mp hlimit
      exact Or.inr (Or.inl ⟨ms, hms, by simpa using hle, (Except.error.inj h).symm⟩)
    | none =>
      rw [hlimit] at h
      cases hplayed : (r.engine.tickFrame (Host.seconds frameNanos)).advancePlayback frameNanos with
      | error e =>
        rw [hplayed] at h
        obtain ⟨hover, rfl⟩ := advance_error hplayed
        exact Or.inr (Or.inr ⟨hover, (Except.error.inj h).symm⟩)
      | ok shown => rw [hplayed] at h; cases h

/-! ## Between two frames -/

theorem frameNanos_eq : frameNanos = frameMs * 1000000 := rfl

/-- What is true of a replay between two frames. -/
structure Follows (s : PlaybackSettings) (g : Graph) (traces : ChannelName → Option Trace)
    (r : Replay γ) : Prop where
  performing : Timeline.Performing s g traces r.elapsedMs r.logged r.engine.timeline
  clock : r.engine.clock = r.elapsedMs * 1000000

omit [Generator γ] in
theorem Follows.clock_add_frame (h : Follows s g traces r) :
    r.engine.clock + frameNanos = (r.elapsedMs + frameMs) * 1000000 := calc
  r.engine.clock + frameNanos = r.elapsedMs * 1000000 + frameMs * 1000000 := by
    rw [h.clock, frameNanos_eq]
  _ = (r.elapsedMs + frameMs) * 1000000 := (Nat.add_mul _ _ _).symm

/-- A frame moves the timeline on by its length. -/
theorem Follows.frame (h : Follows s g traces r) (hnext : r.next = .ok r') :
    Follows s g traces r' ∧
      ∃ sink, r'.engine.timeline =
        (r.engine.timeline.advanceTo (r.elapsedMs + frameMs)).2.setSink sink := by
  obtain ⟨-, -, hlogs, helapsed, hclock⟩ := next_ok hnext
  rw [h.clock_add_frame, Clock.millis_mul, ← Timeline.advanceTo_min] at hlogs
  refine ⟨⟨?_, ?_⟩, hlogs.timeline⟩
  · rw [helapsed]
    have hsmall : frameMs ≤ Timeline.longestMove := by decide
    exact hlogs.performing (h.performing.advanceTo (Nat.le_add_right _ _) (by omega))
  · rw [hclock, helapsed, h.clock_add_frame]

/-! ## The start -/

theorem Follows.feedGraph (h : Follows s g (fun _ => none) r) (h0 : r.elapsedMs = 0)
    (input : GraphInput) :
    Follows s (Graph.ofInput input) (fun _ => none) (r.feed (.graph input)) ∧
      (r.feed (.graph input)).elapsedMs = 0 ∧ (r.feed (.graph input)).limit = r.limit := by
  obtain ⟨hlogs, helapsed, hclock⟩ := feed_logs r (f := .graph input) rfl
  have hperforming := h.performing
  rw [h0] at hperforming
  refine ⟨⟨?_, ?_⟩, helapsed.trans h0, hlogs.limit⟩
  · rw [helapsed, h0]
    exact hlogs.performing (hperforming.setGraph (Graph.ofInput input))
  · rw [hclock, helapsed, h.clock]

theorem Follows.feedTrace {traces' : ChannelName → Option Trace} (h : Follows s g traces r)
    (h0 : r.elapsedMs = 0) {f : Feed} {name : ChannelName} {trace : Trace}
    (hcall : r.engine.call? (.apply f) = some (.bind name (some trace)))
    (hfree : traces name = none) (hname : traces' name = some trace)
    (hother : ∀ c ≠ name, traces' c = traces c) :
    Follows s g traces' (r.feed f) ∧ (r.feed f).elapsedMs = 0 ∧ (r.feed f).limit = r.limit := by
  obtain ⟨hlogs, helapsed, hclock⟩ := r.feed_logs hcall
  have hperforming := h.performing
  rw [h0] at hperforming
  have hpart := hperforming.part name
  rw [hfree] at hpart
  refine ⟨⟨?_, ?_⟩, helapsed.trans h0, hlogs.limit⟩
  · rw [helapsed, h0]
    exact hlogs.performing (hperforming.bind hpart.1 hname hother)
  · rw [hclock, helapsed, h.clock]

theorem Follows.feedTrace? (h : Follows s g traces r) (h0 : r.elapsedMs = 0)
    (traces' : ChannelName → Option Trace) (name : ChannelName) {α : Type} (toFeed : α → Feed)
    {toTrace : α → Trace}
    (hcall : ∀ a, r.engine.call? (.apply (toFeed a)) = some (.bind name (some (toTrace a))))
    (hfree : traces name = none) (a? : Option α) (hname : traces' name = a?.map toTrace)
    (hother : ∀ c ≠ name, traces' c = traces c) :
    let r' := (a?.map toFeed).toList.foldl feed r
    Follows s g traces' r' ∧ r'.elapsedMs = 0 ∧ r'.limit = r.limit := by
  cases a? with
  | some a => exact h.feedTrace h0 (hcall a) hfree hname hother
  | none =>
    have hsame : traces' = traces := by
      funext c
      by_cases hc : c = name
      · rw [hc, hname, hfree]; rfl
      · exact hother c hc
    exact ⟨hsame ▸ h, h0, rfl⟩

/-- The replay of a job follows its programme from the start. -/
theorem ofJob_follows (j : Job) (random : γ) :
    Follows j.settings.playback (Graph.ofInput j.graph) j.trace? (ofJob j random) ∧
      (ofJob j random).elapsedMs = 0 ∧ (ofJob j random).limit = j.limit := by
  let start : Replay γ := { engine := .new j.settings (.recorder #[]) random, limit := j.limit }
  have hnew : Follows j.settings.playback .empty (fun _ => none) start :=
    ⟨Timeline.performing_new _ _ _, (Nat.zero_mul _).symm⟩
  obtain ⟨hgraph, h0, hlimit⟩ := hnew.feedGraph rfl j.graph
  -- first the ghost trace, then the live one
  let ghostOnly : ChannelName → Option Trace
    | .live => none
    | .ghost => j.ghost.map Trace.ghost
  have hlater : ∀ c ≠ ChannelName.ghost, ghostOnly c = none
    | .live, _ => rfl
    | .ghost, hc => absurd rfl hc
  have hearlier : ∀ c ≠ ChannelName.live, j.trace? c = ghostOnly c
    | .live, hc => absurd rfl hc
    | .ghost, _ => rfl
  obtain ⟨hghost, h0', hlimit'⟩ :=
    hgraph.feedTrace? h0 ghostOnly .ghost Feed.ghostTrace (fun _ => rfl) rfl j.ghost rfl hlater
  obtain ⟨hlive, h0'', hlimit''⟩ :=
    hghost.feedTrace? h0' j.trace? .live Feed.liveTrace (fun _ => rfl) rfl j.live rfl hearlier
  have hfeeds : ofJob j random = (j.live.map Feed.liveTrace).toList.foldl feed
      ((j.ghost.map Feed.ghostTrace).toList.foldl feed (start.feed (.graph j.graph))) := by
    simp only [ofJob, Job.feeds, List.foldl_append, List.foldl_cons, List.foldl_nil, start]
  rw [hfeeds]
  exact ⟨hlive, h0'', hlimit''.trans (hlimit'.trans hlimit)⟩

/-! ## The loop -/

/-- A replay gets to another by some frames. -/
inductive Reaches : Replay γ → Nat → Replay γ → Prop where
  | start (r : Replay γ) : Reaches r 0 r
  | frame {r r' last : Replay γ} {n : Nat} : r.next = .ok r' → Reaches r' n last →
      Reaches r (n + 1) last

theorem Reaches.elapsed {n : Nat} (h : Reaches r n last) :
    last.elapsedMs = r.elapsedMs + n * frameMs := by
  induction h with
  | start r => rw [Nat.zero_mul, Nat.add_zero]
  | @frame r r' last n hnext _ ih =>
    rw [ih, (next_ok hnext).2.2.2.1, Nat.succ_mul, Nat.add_assoc, Nat.add_comm frameMs]

omit [Generator γ] in
/-- `play` is the loop, if it is given more frames than there are. -/
theorem Reaches.play {n m : Nat} {ending : Ending} (h : Reaches r n last)
    (hend : last.next = .error ending) (hm : n < m) : r.play m = (ending, last) := by
  induction h generalizing m with
  | start r =>
    obtain ⟨m, rfl⟩ : ∃ k, m = k + 1 := ⟨m - 1, by omega⟩
    rw [Replay.play, hend]
  | frame hnext _ ih =>
    obtain ⟨m, rfl⟩ : ∃ k, m = k + 1 := ⟨m - 1, by omega⟩
    rw [Replay.play, hnext]
    exact ih hend (Nat.lt_of_succ_lt_succ hm)

omit [Generator γ] in
/-- A loop in which every frame lowers a rank comes to its end. -/
theorem ends_of_rank {P : Replay γ → Prop} (rank : Replay γ → Nat)
    (hstep : ∀ r r', P r → r.next = .ok r' → P r' ∧ rank r' < rank r) (h : P r) :
    ∃ n last ending, Reaches r n last ∧ last.next = .error ending ∧ P last ∧ n ≤ rank r := by
  induction hr : rank r using Nat.strong_induction_on generalizing r with
  | _ k ih =>
    cases hnext : r.next with
    | error ending => exact ⟨0, r, ending, .start r, hnext, h, Nat.zero_le _⟩
    | ok r' =>
      obtain ⟨hP, hlt⟩ := hstep r r' h hnext
      obtain ⟨n, last, ending, hreach, hend, hlast, hle⟩ := ih (rank r') (hr ▸ hlt) hP rfl
      exact ⟨n + 1, last, ending, .frame hnext hreach, hend, hlast, by omega⟩

end Replay
end TracePlayback
