import TracePlayback.Proofs.Playback.Operation

/-!
# The channels are independent

Both channels share the clock, the loop and its limit of steps, and giving one of them a trace runs
the loop for both. Still a channel cannot tell whether the other one is used.

Two runs are compared: one as it is, and one without the operations that name the other channel. The
timelines they pass through `Agree` on the channel, and the other channel of the second run stays
silent. `Agree.fire` and `Agree.fire_other` keep that through a turn of the loop, `Agree.runDue`
through the loop, where the first run takes turns that the second one does not, and
`Agree.perform` and `Agree.perform_other` through a call.

* `channel_independent`: as long as no call of the first run stops short, the second one returns
  the same events of the channel from every call it keeps, and ends with the channel and the clock
  in the same state; the calls it leaves out have returned no event of the channel.
-/
namespace TracePlayback

/-- The events of a channel. -/
def eventsOf (c : ChannelName) (events : List Event) : List Event :=
  events.filter fun e => e.channel = c

@[simp]
theorem eventsOf_nil (c : ChannelName) : eventsOf c [] = [] := rfl

theorem eventsOf_append (c : ChannelName) (a b : List Event) :
    eventsOf c (a ++ b) = eventsOf c a ++ eventsOf c b :=
  List.filter_append a b

/-- An operation concerns a channel unless it names the other one. -/
def Operation.concerns (c : ChannelName) : Operation → Bool
  | .bind name _ => name = c
  | .setLooping name _ => name = c
  | _ => true

namespace Timeline

theorem fire_events {t : Timeline} {name : ChannelName} {due : Nat}
    (hd : (t.channel name).due = some due) : ∀ e ∈ (t.fire name due).1, e.channel = name := by
  intro e he
  rw [fire_eq hd] at he
  split at he
  · cases he
  · obtain ⟨step, -, rfl⟩ := List.mem_map.mp he
    rfl

theorem eventsOf_fire_other {t : Timeline} {c name : ChannelName} {due : Nat}
    (hd : (t.channel name).due = some due) (hn : name ≠ c) :
    eventsOf c (t.fire name due).1 = [] := by
  refine List.filter_eq_nil_iff.mpr ?_
  intro e he
  rw [fire_events hd e he]
  simpa using hn

/-! ## Agreement on a channel -/

/-- Two timelines agree on a channel, and in the second one the other channel is silent. Clock and
sink may differ. -/
structure Agree (c : ChannelName) (t u : Timeline) : Prop where
  graph : t.graph = u.graph
  settings : t.settings = u.settings
  channel : t.channel c = u.channel c
  silent : ∀ n ≠ c, (u.channel n).due = none ∧ (u.channel n).trace = none

theorem Agree.atTime {c : ChannelName} {t u : Timeline} (h : Agree c t u) (a b : Nat) :
    Agree c (t.atTime a) (u.atTime b) where
  graph := h.graph
  settings := h.settings
  channel := by rw [atTime_channel, atTime_channel]; exact h.channel
  silent := by intro n hn; rw [atTime_channel]; exact h.silent n hn

theorem Agree.no_backlog {c : ChannelName} {t u : Timeline} (h : Agree c t u) {target : Nat}
    (hb : t.hasBacklog target = false) : u.hasBacklog target = false := by
  rw [hasBacklog_eq_false_iff] at hb ⊢
  intro n d hd
  by_cases hn : n = c
  · subst hn; rw [← h.channel] at hd; exact hb n d hd
  · rw [(h.silent n hn).1] at hd; cases hd

theorem Agree.earliest? {c : ChannelName} {t u : Timeline} (h : Agree c t u) {due : Nat}
    (hd : (t.channel c).due = some due) : u.earliest? = some (c, due) := by
  rw [h.channel] at hd
  cases he : u.earliest? with
  | none => rw [earliest?_none he c] at hd; cases hd
  | some p =>
    obtain ⟨n, d⟩ := p
    have hn := earliest?_due he
    by_cases hc : n = c
    · subst hc; rw [hd] at hn; cases hn; rfl
    · rw [(h.silent n hc).1] at hn; cases hn

/-- The channel takes the same step in both timelines. -/
theorem Agree.fire {c : ChannelName} {t u : Timeline} (h : Agree c t u) {due : Nat}
    (hd : (t.channel c).due = some due) :
    (u.fire c due).1 = (t.fire c due).1 ∧ Agree c (t.fire c due).2 (u.fire c due).2 := by
  have hdu : (u.channel c).due = some due := by rw [← h.channel]; exact hd
  obtain ⟨-, tg, ts, -⟩ := fire_frame hd
  obtain ⟨-, ug, us, uc⟩ := fire_frame hdu
  have hch : (u.fire c due).1 = (t.fire c due).1 ∧
      (t.fire c due).2.channel c = (u.fire c due).2.channel c := by
    rw [fire_eq hd, fire_eq hdu, ← h.channel, ← h.settings, ← h.graph]
    cases (t.channel c).fire? t.settings t.graph due with
    | none =>
      refine ⟨rfl, ?_⟩
      simp only [atTime_channel]; exact h.channel
    | some r => cases c <;> exact ⟨rfl, rfl⟩
  refine ⟨hch.1, by rw [tg, ug, h.graph], by rw [ts, us, h.settings], hch.2, ?_⟩
  intro n hn
  rw [uc n hn]; exact h.silent n hn

/-- A step of the other channel is not seen in the second timeline. -/
theorem Agree.fire_other {c name : ChannelName} {t u : Timeline} (h : Agree c t u) {due : Nat}
    (hd : (t.channel name).due = some due) (hn : name ≠ c) : Agree c (t.fire name due).2 u := by
  obtain ⟨-, tg, ts, tc⟩ := fire_frame hd
  exact ⟨by rw [tg, h.graph], by rw [ts, h.settings], by rw [tc c (Ne.symm hn), h.channel],
    h.silent⟩

/-- The loop. The first timeline may take turns for the other channel, so the second is given at
least as many. -/
theorem Agree.runDue {c : ChannelName} {target n m : Nat} {t u : Timeline} (h : Agree c t u)
    (hb : (runDue target n t).2.hasBacklog target = false) (hnm : n ≤ m) :
    eventsOf c (Timeline.runDue target m u).1 = eventsOf c (Timeline.runDue target n t).1 ∧
      Agree c (Timeline.runDue target n t).2 (Timeline.runDue target m u).2 := by
  induction n generalizing t u m with
  | zero =>
    rw [runDue_stop (h.no_backlog hb)]
    exact ⟨rfl, h⟩
  | succ n ih =>
    rcases backlog_cases t target with hstop | ⟨name, due, he, hle⟩
    · rw [runDue_stop hstop, runDue_stop (h.no_backlog hstop)]
      exact ⟨rfl, h⟩
    have hd := earliest?_due he
    rw [runDue_step he hle] at hb ⊢
    by_cases hn : name = c
    · subst hn
      obtain ⟨k, rfl⟩ : ∃ k, m = k + 1 := ⟨m - 1, by omega⟩
      rw [runDue_step (h.earliest? hd) hle]
      obtain ⟨hev, hag⟩ := h.fire hd
      obtain ⟨h1, h2⟩ := ih hag hb (m := k) (by omega)
      refine ⟨?_, h2⟩
      rw [eventsOf_append, eventsOf_append, hev, h1]
    · obtain ⟨h1, h2⟩ := ih (h.fire_other hd hn) hb (m := m) (by omega)
      refine ⟨?_, h2⟩
      rw [eventsOf_append, eventsOf_fire_other hd hn, List.nil_append, h1]

/-! ## Agreement through a call -/

theorem Agree.setChannel {c : ChannelName} {t u : Timeline} (h : Agree c t u) (x : Channel) :
    Agree c (t.setChannel c x) (u.setChannel c x) := by
  refine ⟨?_, ?_, ?_, ?_⟩
  · rw [setChannel_graph, setChannel_graph, h.graph]
  · rw [setChannel_settings, setChannel_settings, h.settings]
  · rw [channel_setChannel_self, channel_setChannel_self]
  · intro n hn
    rw [channel_setChannel_of_ne u x hn]; exact h.silent n hn

theorem Agree.setChannel_other {c name : ChannelName} {t u : Timeline} (h : Agree c t u)
    (hn : name ≠ c) (x : Channel) : Agree c (t.setChannel name x) u := by
  refine ⟨?_, ?_, ?_, h.silent⟩
  · rw [setChannel_graph, h.graph]
  · rw [setChannel_settings, h.settings]
  · rw [channel_setChannel_of_ne t x (Ne.symm hn), h.channel]

theorem Agree.edit {c : ChannelName} {t u : Timeline} (h : Agree c t u) (hnow : t.now = u.now)
    {op : Operation} (hop : op.concerns c = true) : Agree c (t.edit op) (u.edit op) := by
  cases op with
  | setGraph g =>
    refine ⟨rfl, h.settings, ?_, ?_⟩
    · simp only [Timeline.edit, renewed_channel]
      rw [h.channel, hnow]
    · intro n hn
      obtain ⟨-, ht⟩ := h.silent n hn
      simp only [Timeline.edit, renewed_channel, ht, Option.isSome_none, Bool.false_eq_true,
        if_false]
      exact ⟨rfl, ht⟩
  | bind name trace =>
    have hn : name = c := of_decide_eq_true hop
    subst hn
    simp only [Timeline.edit]
    rw [h.channel, hnow]
    exact h.setChannel _
  | setLooping name looping =>
    have hn : name = c := of_decide_eq_true hop
    subst hn
    simp only [Timeline.edit, setLooping]
    rw [h.channel]
    exact h.setChannel _
  | setAudio audio => cases c <;> exact ⟨h.graph, h.settings, h.channel, h.silent⟩
  | setSink sink => cases c <;> exact ⟨h.graph, h.settings, h.channel, h.silent⟩
  | advanceBy ms => exact h
  | advanceTo target => exact h

theorem Agree.edit_other {c : ChannelName} {t u : Timeline} (h : Agree c t u) {op : Operation}
    (hop : op.concerns c = false) : Agree c (t.edit op) u := by
  cases op with
  | bind name trace => exact h.setChannel_other (of_decide_eq_false hop) _
  | setLooping name looping => exact h.setChannel_other (of_decide_eq_false hop) _
  | _ => cases hop

theorem target?_congr {t u : Timeline} (h : t.now = u.now) (op : Operation) :
    t.target? op = u.target? op := by
  cases op <;> simp only [target?, h]

/-- A call made in both timelines. -/
theorem Agree.perform {c : ChannelName} {t u : Timeline} (h : Agree c t u) (hnow : t.now = u.now)
    {op : Operation} (hop : op.concerns c = true) (hs : t.stopsShort op = false) :
    eventsOf c (u.perform op).1 = eventsOf c (t.perform op).1 ∧
      Agree c (t.perform op).2 (u.perform op).2 ∧ (t.perform op).2.now = (u.perform op).2.now := by
  have he := h.edit hnow hop
  cases ht : t.target? op with
  | none =>
    rw [perform_eq t, perform_eq u, ← target?_congr hnow, ht]
    exact ⟨rfl, he, by rw [edit_now, edit_now, hnow]⟩
  | some target =>
    simp only [stopsShort, ht, Option.any_some] at hs
    rw [perform_eq t, perform_eq u, ← target?_congr hnow, ht]
    rw [perform_eq t, ht] at hs
    simp only [advanceTo_eq, atTime_hasBacklog, edit_now] at hs ⊢
    obtain ⟨h1, h2⟩ := he.runDue hs (Nat.le_refl _)
    exact ⟨h1, h2.atTime _ _, by rw [atTime_now, atTime_now, hnow]⟩

/-- A call that is left out of the second timeline, where nothing is due: the loop that it runs in
the first one cannot reach a step of the channel. -/
theorem Agree.perform_other {c : ChannelName} {t u : Timeline} (h : Agree c t u)
    (hnow : t.now = u.now) (hcu : t.CaughtUp) {op : Operation} (hop : op.concerns c = false)
    (hs : t.stopsShort op = false) :
    eventsOf c (t.perform op).1 = [] ∧ Agree c (t.perform op).2 u ∧
      (t.perform op).2.now = u.now := by
  have he := h.edit_other hop
  cases op with
  | bind name trace =>
    have ht : t.target? (.bind name trace) = some t.now := rfl
    simp only [stopsShort, ht, Option.any_some] at hs
    rw [perform_eq t, ht] at hs ⊢
    simp only [advanceTo_eq, atTime_hasBacklog, edit_now, Nat.min_eq_left hcu.1] at hs ⊢
    obtain ⟨h1, h2⟩ := he.runDue hs (Nat.le_refl _)
    rw [runDue_stop (h.no_backlog hcu.2)] at h1 h2
    exact ⟨h1.symm, h2.atTime _ u.now, by rw [atTime_now, Nat.max_self, hnow]⟩
  | setLooping name looping =>
    exact ⟨rfl, he, by rw [← hnow]; exact edit_now t (.setLooping name looping)⟩
  | _ => cases hop

/-! ## Whole runs -/

theorem Agree.run {c : ChannelName} {t u : Timeline} (h : Agree c t u) (hnow : t.now = u.now)
    (hcu : t.CaughtUp) {ops : List Operation} (hk : t.keepsUp ops = true) :
    ((u.calls (ops.filter (·.concerns c))).map fun call => (call.1, eventsOf c call.2)) =
        ((t.calls ops).filter (·.1.concerns c)).map (fun call => (call.1, eventsOf c call.2)) ∧
      (∀ call ∈ t.calls ops, call.1.concerns c = false → eventsOf c call.2 = []) ∧
      (u.after (ops.filter (·.concerns c))).channel c = (t.after ops).channel c ∧
      (u.after (ops.filter (·.concerns c))).now = (t.after ops).now := by
  induction ops generalizing t u with
  | nil =>
    refine ⟨rfl, ?_, h.channel.symm, hnow.symm⟩
    intro call hcall
    cases hcall
  | cons op ops ih =>
    simp only [keepsUp, Bool.and_eq_true, Bool.not_eq_true'] at hk
    obtain ⟨hs, hk⟩ := hk
    have hcu' := caughtUp_perform hcu hs
    cases hop : op.concerns c with
    | true =>
      obtain ⟨hev, hag, hnow'⟩ := h.perform hnow hop hs
      obtain ⟨h1, h2, h3⟩ := ih hag hnow' hcu' hk
      rw [List.filter_cons_of_pos hop]
      refine ⟨?_, ?_, h3⟩
      · simp only [calls, List.filter_cons_of_pos, hop, List.map_cons, h1, hev]
      · intro call hcall hcc
        rcases List.mem_cons.mp hcall with rfl | hcall
        · rw [hop] at hcc; cases hcc
        · exact h2 call hcall hcc
    | false =>
      obtain ⟨hev, hag, hnow'⟩ := h.perform_other hnow hcu hop hs
      obtain ⟨h1, h2, h3⟩ := ih hag hnow' hcu' hk
      rw [List.filter_cons_of_neg (by simp [hop])]
      refine ⟨?_, ?_, h3⟩
      · rw [h1]
        simp only [calls]
        rw [List.filter_cons_of_neg (by simp [hop])]
      · intro call hcall hcc
        rcases List.mem_cons.mp hcall with rfl | hcall
        · exact hev
        · exact h2 call hcall hcc

/-- Before the first call, a timeline agrees with itself, since neither channel has a trace. -/
theorem agree_new (s : PlaybackSettings) (a : AudioSettings) (k : Sink) (c : ChannelName) :
    Agree c (new s a k) (new s a k) where
  graph := rfl
  settings := rfl
  channel := rfl
  silent := by intro n _; cases n <;> exact ⟨rfl, rfl⟩

/-- **The channels are independent.** Take a run in which no call stops short, and leave out every
call that names the other channel. Each call that is left returns the same events of the channel,
the calls left out had returned none of them, and channel and clock end in the same state. -/
theorem channel_independent (s : PlaybackSettings) (a : AudioSettings) (k : Sink)
    (ops : List Operation) (c : ChannelName) (h : (new s a k).keepsUp ops = true) :
    let start := new s a k
    let kept := ops.filter (·.concerns c)
    ((start.calls kept).map fun call => (call.1, eventsOf c call.2)) =
        ((start.calls ops).filter (·.1.concerns c)).map (fun call => (call.1, eventsOf c call.2)) ∧
      (∀ call ∈ start.calls ops, call.1.concerns c = false → eventsOf c call.2 = []) ∧
      (start.after kept).channel c = (start.after ops).channel c ∧
      (start.after kept).now = (start.after ops).now :=
  (agree_new s a k c).run rfl (caughtUp_new s a k) h

/-- The live trace is replaced, and set to loop, while the ghost trace is playing. -/
def rebinding : List Operation :=
  [.setGraph .pair, .bind .ghost (some (.ghost ⟨#[⟨2, 0⟩, ⟨1, 300⟩]⟩)),
    .bind .live (some (.live ⟨#[1, 2]⟩)), .advanceBy 250, .setLooping .live true,
    .bind .live (some (.live ⟨#[2]⟩)), .advanceBy 2000]

theorem rebinding_unseen :
    (new {} {} .silent).keepsUp rebinding = true ∧
      ((new {} {} .silent).after (rebinding.filter (·.concerns .ghost))).channel .ghost =
        ((new {} {} .silent).after rebinding).channel .ghost :=
  ⟨by decide, (channel_independent {} {} .silent rebinding .ghost (by decide)).2.2.1⟩

end Timeline
end TracePlayback
