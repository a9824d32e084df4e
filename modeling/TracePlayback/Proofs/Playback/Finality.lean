import TracePlayback.Proofs.Playback.Independence

/-!
# The end of a trace

A channel says once that its trace has come to its end, and then nothing until it is started again.
Its flag for looping may change at any time, also after the end; the end is only looked for when a
step is due, and after the end no step is.

* `Timeline.starts?`, `Timeline.undisturbed`: a stretch of a channel begins with a call that starts
  it, and lasts as long as no other call does.
* `perform_keeps`: what the steps of a channel keep, together with the events they add, an advance
  keeps. `Persists.run`: if it does not depend on the flag, it holds all through a stretch.
* `Stage`, `stage_after`: the stages of a stretch. A channel without a trace shows nothing; one with
  a trace plays, and then it has ended.
* `finished_is_final`: so at most one end is shown in a stretch, as the last of its events.
-/
namespace TracePlayback

namespace Timeline

/-! ## Stretches -/

/-- What an operation starts a channel with, if it starts it: a trace that is bound, or none, or the
trace that it has if a graph is set. -/
def starts? (t : Timeline) (c : ChannelName) : Operation → Option (Option Trace)
  | .bind name trace => if name = c then some trace else none
  | .setGraph _ => (t.channel c).trace.map some
  | _ => none

/-- No call of a run starts the channel. -/
def undisturbed (t : Timeline) (c : ChannelName) : List Operation → Bool
  | [] => true
  | op :: ops => (t.starts? c op).isNone && (t.perform op).2.undisturbed c ops

theorem edit_starts {t : Timeline} {c : ChannelName} {op : Operation} {trace : Option Trace}
    (h : t.starts? c op = some trace) :
    (t.edit op).channel c =
      Channel.restart { trace := trace, looping := (t.channel c).looping } t.now := by
  cases op with
  | bind name bound =>
    simp only [starts?] at h
    split at h
    · rename_i hn
      subst hn
      cases h
      exact channel_setChannel_self t name _
    · cases h
  | setGraph g =>
    obtain ⟨held, ht, rfl⟩ := Option.map_eq_some_iff.mp h
    simp only [edit, renewed_channel, ht, Option.isSome_some, if_true]
    simp only [Channel.restart, ht]
  | _ => cases h

/-! ## What the steps of a channel keep -/

section

variable {c : ChannelName} {P : List Event → Channel → Prop} {t : Timeline} {shown : List Event}

/-- What a step of the channel keeps, together with the events that it adds, a turn keeps, whichever
channel it is for. -/
theorem fire_keeps
    (hstep : ∀ ch due steps, (t.channel c).fire? t.settings t.graph due = some (due, steps, ch) →
      P (shown ++ steps.map fun step => ⟨c, due, step⟩) ch)
    (ht : P shown (t.channel c)) {name : ChannelName} {due : Nat}
    (hd : (t.channel name).due = some due) :
    P (shown ++ eventsOf c (t.fire name due).1) ((t.fire name due).2.channel c) := by
  by_cases hn : name = c
  · subst hn
    have hown : eventsOf name (t.fire name due).1 = (t.fire name due).1 :=
      List.filter_eq_self.mpr fun e he => decide_eq_true (fire_events hd e he)
    rw [hown, fire_channel hd, fire_eq hd]
    cases hf : (t.channel name).fire? t.settings t.graph due with
    | none => simpa using ht
    | some r =>
      obtain ⟨time, steps, ch⟩ := r
      obtain rfl : due = time := Option.some.inj (hd.symm.trans (Channel.fire?_cases hf).1)
      exact hstep ch due steps hf
  · obtain ⟨-, -, -, hother⟩ := fire_frame hd
    rw [eventsOf_fire_other hd hn, List.append_nil, hother c (Ne.symm hn)]
    exact ht

/-- So the advance of a call keeps it, after its edit. -/
theorem perform_keeps (op : Operation) (shown : List Event)
    (hstep : ∀ told ch ch' due steps, P told ch →
      ch.fire? (t.edit op).settings (t.edit op).graph due = some (due, steps, ch') →
      P (told ++ steps.map fun step => ⟨c, due, step⟩) ch')
    (ht : P shown ((t.edit op).channel c)) :
    P (shown ++ eventsOf c (t.perform op).1) ((t.perform op).2.channel c) := by
  refine (perform_accumulates (P := fun told u => u.settings = (t.edit op).settings ∧
    u.graph = (t.edit op).graph ∧ P (shown ++ eventsOf c told) (u.channel c)) ?_ ?_ []
    ⟨rfl, rfl, by simpa using ht⟩).2.2
  · rintro told u name due ⟨hsettings, hgraph, hu⟩ he _
    have hd := earliest?_due he
    obtain ⟨-, hgraph', hsettings', -⟩ := fire_frame hd
    refine ⟨hsettings'.trans hsettings, hgraph'.trans hgraph, ?_⟩
    rw [eventsOf_append, ← List.append_assoc]
    refine fire_keeps (fun ch due steps hf => ?_) hu hd
    rw [hsettings, hgraph] at hf
    exact hstep _ _ _ _ _ hu hf
  · rintro told u target ⟨hsettings, hgraph, hu⟩ _
    exact ⟨hsettings, hgraph, by rw [atTime_channel]; exact hu⟩

end

end Timeline

/-- A property of a channel and of the events that it has shown, which every step keeps, with the
events that the step adds, and which does not depend on whether the channel loops. -/
structure Persists (c : ChannelName) (P : List Event → Channel → Prop) : Prop where
  step : ∀ {shown ch ch' s g now time steps}, P shown ch →
    ch.fire? s g now = some (time, steps, ch') → P (shown ++ steps.map fun step => ⟨c, time, step⟩) ch'
  looping : ∀ {shown ch} (looping : Bool), P shown ch → P shown { ch with looping := looping }
  cancel : ∀ {shown ch}, P shown ch → ch.trace = none → P shown ch.cancel

namespace Persists

open Timeline

variable {c : ChannelName} {P : List Event → Channel → Prop} {t : Timeline} {shown : List Event}

theorem perform (h : Persists c P) {op : Operation} (ht : P shown ((t.edit op).channel c)) :
    P (shown ++ eventsOf c (t.perform op).1) ((t.perform op).2.channel c) :=
  perform_keeps op shown (fun _ _ _ _ _ hshown hf => h.step hshown hf) ht

theorem edit (h : Persists c P) (ht : P shown (t.channel c)) {op : Operation}
    (hop : t.starts? c op = none) : P shown ((t.edit op).channel c) := by
  cases op with
  | bind name trace =>
    have hn : c ≠ name := by
      rintro rfl
      simp [starts?] at hop
    change P shown ((t.setChannel name _).channel c)
    rw [channel_setChannel_of_ne t _ hn]
    exact ht
  | setGraph g =>
    have hnone : (t.channel c).trace = none := Option.map_eq_none_iff.mp hop
    simp only [Timeline.edit, renewed_channel, hnone, Option.isSome_none, Bool.false_eq_true,
      if_false]
    exact h.cancel ht hnone
  | setLooping name looping =>
    change P shown ((t.setChannel name _).channel c)
    rw [channel_setChannel]
    split
    · rename_i hn
      subst hn
      exact h.looping looping ht
    · exact ht
  | setAudio audio => cases c <;> exact ht
  | setSink sink => cases c <;> exact ht
  | advanceBy ms => exact ht
  | advanceTo target => exact ht

theorem run (h : Persists c P) {ops : List Operation} (ht : P shown (t.channel c))
    (hops : t.undisturbed c ops = true) :
    P (shown ++ eventsOf c ((t.calls ops).flatMap (·.2))) ((t.after ops).channel c) := by
  induction ops generalizing t shown with
  | nil => simpa [calls, after] using ht
  | cons op ops ih =>
    obtain ⟨hop, hops⟩ := Bool.and_eq_true_iff.mp hops
    rw [calls, List.flatMap_cons, eventsOf_append, ← List.append_assoc]
    exact ih (h.perform (h.edit ht (Option.isNone_iff_eq_none.mp hop))) hops

end Persists

/-! ## The stages of a stretch -/

/-- No end of a trace is among the events. -/
def Unfinished (events : List Event) : Prop := ∀ e ∈ events, e.step ≠ .finished

/-- How far a channel is that was started at a time with a trace or none, and what it has shown
since. -/
inductive Stage (c : ChannelName) (start : Nat) : Option Trace → List Event → Channel → Prop where
  | unbound {ch : Channel} (trace : ch.trace = none) (finished : ch.finished = false) :
      Stage c start none [] ch
  | playing {tr : Trace} {shown : List Event} {ch : Channel} (trace : ch.trace = some tr)
      (unfinished : Unfinished shown) (finished : ch.finished = false)
      (first : tr.length = 0 → shown = [] ∧ ch.due = some start) : Stage c start (some tr) shown ch
  | ended {tr : Trace} {shown : List Event} {time : Nat} {ch : Channel} (trace : ch.trace = some tr)
      (unfinished : Unfinished shown) (finished : ch.finished = true) (due : ch.due = none)
      (node : ch.activeNode = none) (link : ch.activeLink = none)
      (only : tr.length = 0 → shown = [] ∧ time = start) :
      Stage c start (some tr) (shown ++ [⟨c, time, .finished⟩]) ch

namespace Stage

variable {c : ChannelName} {start : Nat} {trace : Option Trace}

theorem restart (looping : Bool) :
    Stage c start trace [] (Channel.restart { trace := trace, looping := looping } start) := by
  cases trace with
  | none => exact unbound rfl rfl
  | some tr => exact playing rfl (fun e he => nomatch he) rfl (fun _ => ⟨rfl, rfl⟩)

theorem step {shown : List Event} {ch ch' : Channel} {s : PlaybackSettings} {g : Graph}
    {now time : Nat} {steps : List Step} (h : Stage c start trace shown ch)
    (hf : ch.fire? s g now = some (time, steps, ch')) :
    Stage c start trace (shown ++ steps.map fun step => ⟨c, time, step⟩) ch' := by
  obtain ⟨hdue, -, tr, htrace, hexit⟩ := Channel.fire?_cases hf
  cases h with
  | unbound hnone => rw [hnone] at htrace; cases htrace
  | ended _ _ _ hnone => rw [hnone] at hdue; cases hdue
  | playing hsome hunfinished hfin hfirst =>
    obtain rfl := Option.some.inj (htrace.symm.trans hsome)
    obtain ⟨i, hi, hp⟩ | ⟨-, hp⟩ := hexit
    · have hunended : ∀ step ∈ steps, step ≠ .finished := by
        intro step hstep
        obtain ⟨node, -, ⟨revisit, rfl⟩ | ⟨source, linked, rfl⟩⟩ := Channel.mem_play hp hstep
        · exact Step.noConfusion
        · exact Step.noConfusion
      rw [Channel.play_eq] at hp
      obtain ⟨-, rfl⟩ := Prod.mk.inj hp
      refine playing hsome ?_ hfin ?_
      · intro e he
        rcases List.mem_append.mp he with he | he
        · exact hunfinished e he
        · obtain ⟨step, hstep, rfl⟩ := List.mem_map.mp he
          exact hunended step hstep
      · -- an empty trace has no entry to play
        intro hempty
        have hlt := Channel.next?_lt hi
        simp only [Channel.length, hsome, Option.map_some, Option.getD_some, hempty] at hlt
        cases hlt
    · obtain ⟨rfl, rfl⟩ := Prod.mk.inj hp
      refine ended hsome hunfinished rfl rfl rfl rfl fun hempty => ?_
      obtain ⟨hnothing, hstart⟩ := hfirst hempty
      exact ⟨hnothing, Option.some.inj (hdue.symm.trans hstart)⟩

theorem persists (c : ChannelName) (start : Nat) (trace : Option Trace) :
    Persists c (Stage c start trace) where
  step := step
  looping := by
    intro shown ch looping h
    cases h with
    | unbound hnone hfin => exact unbound hnone hfin
    | playing hsome hunfinished hfin hfirst => exact playing hsome hunfinished hfin hfirst
    | ended hsome hunfinished hfin hdue hnode hlink honly =>
      exact ended hsome hunfinished hfin hdue hnode hlink honly
  cancel := by
    intro shown ch h hnone
    cases h with
    | unbound _ hfin => exact unbound hnone hfin
    | playing hsome => rw [hsome] at hnone; cases hnone
    | ended hsome => rw [hsome] at hnone; cases hnone

end Stage

namespace Timeline

/-- All through a stretch, a channel is at some stage of it. -/
theorem stage_after {t : Timeline} {c : ChannelName} {op : Operation} {ops : List Operation}
    {trace : Option Trace} (hop : t.starts? c op = some trace)
    (hops : (t.perform op).2.undisturbed c ops = true) :
    Stage c t.now trace (eventsOf c ((t.calls (op :: ops)).flatMap (·.2)))
      ((t.after (op :: ops)).channel c) := by
  have hpersists := Stage.persists c t.now trace
  have hbegin : Stage c t.now trace [] ((t.edit op).channel c) := by
    rw [edit_starts hop]
    exact Stage.restart _
  have hrun := hpersists.run (hpersists.perform hbegin) hops
  rw [List.nil_append, ← eventsOf_append] at hrun
  exact hrun

/-- **Finished is final.** Let a call start a channel, and let no later call of a run start it again;
the calls may do anything else, also change whether the channel loops, before and after its end.
Until the run ends,

* the channel has either not finished and no end of its trace was shown, or the end was shown once,
  as the last event of the channel, and the channel has no pending step, no active node and no active
  link;
* if it was started with an empty trace, its end is all that it shows, at the time it was started:
  until then its first step is still due, left over by the limit of steps;
* and if it was started with none, it shows nothing. -/
theorem finished_is_final (t : Timeline) (c : ChannelName) (op : Operation) (ops : List Operation)
    (trace : Option Trace) (hop : t.starts? c op = some trace)
    (hops : (t.perform op).2.undisturbed c ops = true) :
    let shown := eventsOf c ((t.calls (op :: ops)).flatMap (·.2))
    let u := t.after (op :: ops)
    let ch := u.channel c
    ((ch.finished = false ∧ Unfinished shown) ∨
        ∃ told time, shown = told ++ [⟨c, time, .finished⟩] ∧ Unfinished told ∧
          ch.finished = true ∧ ch.due = none ∧ ch.activeNode = none ∧ ch.activeLink = none) ∧
      (∀ tr, trace = some tr → tr.length = 0 →
        shown = [⟨c, t.now, .finished⟩] ∨
          (shown = [] ∧ ch.due = some t.now ∧ u.hasBacklog u.now = true)) ∧
      (trace = none → shown = []) := by
  intro shown u ch
  have hstage : Stage c t.now trace shown ch := stage_after hop hops
  have hnow : t.now ≤ u.now := t.le_now_after (op :: ops)
  have hlate : ch.due = some t.now → u.hasBacklog u.now = true := by
    intro hdue
    rw [← Bool.not_eq_false]
    intro hb
    exact Nat.not_lt.mpr hnow (hasBacklog_eq_false_iff.mp hb c t.now hdue)
  clear_value shown ch
  cases hstage with
  | unbound htrace hfin => exact ⟨Or.inl ⟨hfin, fun e he => nomatch he⟩, nofun, fun _ => rfl⟩
  | playing htrace hunfinished hfin hfirst =>
    refine ⟨Or.inl ⟨hfin, hunfinished⟩, ?_, nofun⟩
    intro tr htr hempty
    cases htr
    obtain ⟨hnothing, hdue⟩ := hfirst hempty
    exact Or.inr ⟨hnothing, hdue, hlate hdue⟩
  | ended htrace hunfinished hfin hdue hnode hlink honly =>
    refine ⟨Or.inr ⟨_, _, rfl, hunfinished, hfin, hdue, hnode, hlink⟩, ?_, nofun⟩
    intro tr htr hempty
    cases htr
    obtain ⟨rfl, rfl⟩ := honly hempty
    exact Or.inl rfl

/-- A trace of one line, whose channel does not loop when it comes to its end, and an empty one,
whose channel does: both end once, whatever comes after. -/
theorem ends_stay :
    let t := (new {} {} .silent).after [.setGraph .pair, .setLooping .ghost true]
    let short := .bind .live (some (.live ⟨#[1]⟩))
    let empty := .bind .ghost (some (.ghost ⟨#[]⟩))
    let rest := [.setLooping .live true, .advanceTo 300, .setLooping .live false, .advanceTo 900,
      .setLooping .live true, .setLooping .ghost false, .advanceTo 5000]
    t.starts? .live short = some (some (.live ⟨#[1]⟩)) ∧
      (t.perform short).2.undisturbed .live (empty :: rest) = true ∧
      t.starts? .ghost empty = some (some (.ghost ⟨#[]⟩)) ∧
      (t.perform empty).2.undisturbed .ghost (short :: rest) = true ∧
      (∃ told time, eventsOf .live ((t.calls (short :: empty :: rest)).flatMap (·.2)) =
        told ++ [⟨.live, time, .finished⟩] ∧ Unfinished told) ∧
      eventsOf .ghost ((t.calls (empty :: short :: rest)).flatMap (·.2)) =
        [⟨.ghost, 0, .finished⟩] := by
  intro t short empty rest
  have hshort : t.starts? .live short = some (some (.live ⟨#[1]⟩)) := rfl
  have hempty : t.starts? .ghost empty = some (some (.ghost ⟨#[]⟩)) := rfl
  have hlive : (t.perform short).2.undisturbed .live (empty :: rest) = true := by decide
  have hghost : (t.perform empty).2.undisturbed .ghost (short :: rest) = true := by decide
  refine ⟨hshort, hlive, hempty, hghost, ?_, ?_⟩
  · have hend : ((t.after (short :: empty :: rest)).channel .live).finished = true := by decide
    rcases (finished_is_final t .live short _ _ hshort hlive).1 with ⟨hfin, -⟩ | ⟨told, time, h⟩
    · rw [hend] at hfin; cases hfin
    · exact ⟨told, time, h.1, h.2.1⟩
  · have hidle : ((t.after (empty :: short :: rest)).channel .ghost).due = none := by decide
    rcases (finished_is_final t .ghost empty _ _ hempty hghost).2.1 _ rfl rfl with h | ⟨-, hdue, -⟩
    · exact h
    · rw [hidle] at hdue; cases hdue

end Timeline
end TracePlayback
