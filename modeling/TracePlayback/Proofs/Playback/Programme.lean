import TracePlayback.Proofs.Playback.Progress

/-!
# A timeline on its way through a programme

A programme is a graph, and a trace or none for each channel, all of it given at time zero.
`Performing` is what is true of a timeline that is played up to a time after that: each channel is on
its way through its own performance and has shown the beginning of it, and as the timeline is abreast
of the clock, how far it is follows from the time.

* `performing_new`: a new timeline has no programme.
* `Performing.perform`: a call that adds to the programme, or moves the clock a little, leaves the
  timeline performing. Of the call it needs to know only what its edit does.
* `Performing.advanceTo`, `Performing.bind`, `Performing.setGraph`: the calls of a replay.
-/
namespace TracePlayback

namespace PlaybackSettings

/-- Whether a channel starts over at its end. -/
def loops (s : PlaybackSettings) : ChannelName → Bool
  | .live => s.loopLive
  | .ghost => s.loopGhost

/-- The performance of a channel that is given a trace at time zero. -/
def performance (s : PlaybackSettings) (g : Graph) (c : ChannelName) (trace : Trace) : Performance :=
  ⟨s, g, trace, s.loops c, 0⟩

end PlaybackSettings

/-- What a channel has shown: nothing without a trace, and the beginning of its performance with
one. -/
def Part (s : PlaybackSettings) (g : Graph) (c : ChannelName) :
    Option Trace → List Event → Channel → Prop
  | none, shown, ch => shown = [] ∧ ch.trace = none
  | some trace, shown, ch => (s.performance g c trace).Progress c shown ch

namespace Part

variable {s : PlaybackSettings} {g : Graph} {c : ChannelName} {trace : Option Trace}
  {shown : List Event} {ch : Channel}

theorem step {ch' : Channel} {now time : Nat} {steps : List Step} (h : Part s g c trace shown ch)
    (hf : ch.fire? s g now = some (time, steps, ch')) :
    Part s g c trace (shown ++ steps.map fun step => ⟨c, time, step⟩) ch' := by
  cases trace with
  | some trace => exact Performance.Progress.step h hf
  | none =>
    obtain ⟨-, -, trace, ht, -⟩ := Channel.fire?_cases hf
    rw [h.2] at ht
    cases ht

theorem trace_eq (h : Part s g c trace shown ch) : ch.trace = trace := by
  cases trace with
  | some trace => exact Performance.Progress.trace h
  | none => exact h.2

end Part

namespace Timeline

/-- A timeline that has played its programme up to a time, and what it has shown. -/
structure Performing (s : PlaybackSettings) (g : Graph) (traces : ChannelName → Option Trace)
    (time : Nat) (shown : List Event) (t : Timeline) : Prop where
  coherent : t.Coherent
  since : ∃ m, Since (.live, m) t
  settings : t.settings = s
  graph : t.graph = g
  looping : ∀ c, (t.channel c).looping = s.loops c
  /-- The clock shows the time, as far as it goes. -/
  now : t.now = min time Clock.last
  abreast : t.Abreast time
  stamped : ∀ e ∈ shown, e.time ≤ time
  part : ∀ c, Part s g c (traces c) (eventsOf c shown) (t.channel c)

variable {s : PlaybackSettings} {g g' : Graph} {traces traces' : ChannelName → Option Trace}
  {time : Nat} {shown : List Event} {t : Timeline}

theorem performing_new (s : PlaybackSettings) (a : AudioSettings) (k : Sink) :
    Performing s .empty (fun _ => none) 0 [] (new s a k) where
  coherent := coherent_new s a k
  since := ⟨0, since_new s a k⟩
  settings := rfl
  graph := rfl
  looping := by intro c; cases c <;> rfl
  now := rfl
  abreast := rfl
  stamped := fun _ he => nomatch he
  part := by intro c; cases c <;> exact ⟨rfl, rfl⟩

namespace Performing

theorem setSink (h : Performing s g traces time shown t) (k : Sink) :
    Performing s g traces time shown (t.setSink k) := by
  have hchannel (c : ChannelName) : (t.setSink k).channel c = t.channel c := by cases c <;> rfl
  obtain ⟨m, hm⟩ := h.since
  exact {
    coherent := h.coherent.after [.setSink k]
    since := hm.after [.setSink k]
    settings := h.settings
    graph := h.graph
    looping := fun c => by rw [hchannel]; exact h.looping c
    now := h.now
    abreast := h.abreast
    stamped := h.stamped
    part := fun c => by rw [hchannel]; exact h.part c }

theorem perform (h : Performing s g traces time shown t) (op : Operation) {target : Nat}
    (ht : t.target? op = some target) (hle : time ≤ target) (hmove : target ≤ time + longestMove)
    (hgraph : (t.edit op).graph = g')
    (hlooping : ∀ c, ((t.edit op).channel c).looping = s.loops c)
    (hpart : ∀ c, Part s g' c (traces' c) (eventsOf c shown) ((t.edit op).channel c)) :
    Performing s g' traces' target (shown ++ (t.perform op).1) (t.perform op).2 := by
  have hsettings : (t.edit op).settings = s := (t.edit_settings op).trans h.settings
  have hnow : (t.perform op).2.now = min target Clock.last := by
    rw [perform_now, ht, h.now]
    simp only
    omega
  obtain ⟨m, hsince⟩ := h.since
  obtain ⟨later, hlater, -, -, hbetween⟩ := hsince.perform op
  refine {
    coherent := h.coherent.after [op]
    since := ⟨later, hlater⟩
    settings := (t.perform_settings op).trans h.settings
    graph := (t.perform_graph op).trans hgraph
    looping := fun c => (t.perform_looping op c).trans (hlooping c)
    now := hnow
    abreast := perform_abreast h.coherent ht h.abreast hmove
    stamped := fun e he => ?_
    part := fun c => ?_ }
  · rcases List.mem_append.mp he with hold | hnew
    · exact Nat.le_trans (h.stamped e hold) hle
    · have hbefore := (hbetween e hnew).2
      have hreached := hlater.reached
      simp only at hreached
      omega
  · rw [eventsOf_append]
    refine perform_keeps op _ (fun told ch ch' due steps htold hf => ?_) (hpart c)
    rw [hsettings, hgraph] at hf
    exact htold.step hf

theorem advanceTo (h : Performing s g traces time shown t) {target : Nat} (hle : time ≤ target)
    (hmove : target ≤ time + longestMove) :
    Performing s g traces target (shown ++ (t.advanceTo target).1) (t.advanceTo target).2 :=
  h.perform (.advanceTo target) rfl hle hmove h.graph h.looping h.part

/-- A channel is given its trace at time zero. -/
theorem bind (h : Performing s g traces 0 shown t) {name : ChannelName} {trace : Trace}
    (hshown : eventsOf name shown = []) (hname : traces' name = some trace)
    (hother : ∀ c ≠ name, traces' c = traces c) :
    Performing s g traces' 0 (shown ++ (t.bind name (some trace)).1) (t.bind name (some trace)).2 := by
  have hzero : t.now = 0 := h.now
  have htarget : t.target? (.bind name (some trace)) = some 0 := congrArg some hzero
  refine h.perform (.bind name (some trace)) htarget (Nat.le_refl 0) (Nat.zero_le _)
    ((t.setChannel_graph name _).trans h.graph) (fun c => ?_) (fun c => ?_)
  · simp only [edit, channel_setChannel]
    split
    · rename_i hc
      subst hc
      exact h.looping c
    · exact h.looping c
  · simp only [edit, channel_setChannel]
    split
    · rename_i hc
      subst hc
      rw [hname, hshown, hzero]
      exact .playing (Performance.at_bind (p := s.performance g c trace) (h.looping c))
    · rename_i hc
      rw [hother c hc]
      exact h.part c

/-- A graph is set before there are any traces. -/
theorem setGraph (h : Performing s g (fun _ => none) 0 shown t) (g' : Graph) :
    Performing s g' (fun _ => none) 0 (shown ++ (t.setGraph g').1) (t.setGraph g').2 := by
  have htarget : t.target? (.setGraph g') = some 0 := congrArg some h.now
  have hchannel (c : ChannelName) : (t.edit (.setGraph g')).channel c = (t.channel c).cancel := by
    rw [edit, renewed_channel, (h.part c).2]
    rfl
  refine h.perform (.setGraph g') htarget (Nat.le_refl 0) (Nat.zero_le _) rfl (fun c => ?_) (fun c => ?_)
  · rw [hchannel]
    exact h.looping c
  · rw [hchannel]
    exact h.part c

end Performing
end Timeline
end TracePlayback
