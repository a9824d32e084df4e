import TracePlayback.Proofs.Playback.Pace

/-!
# Writes at one instant

A graph and two traces arrive in any order, and some of them are replaced before any time has
passed. Each arrival plays at once what it starts, on whatever is there at that moment; a channel may
have reached its end by then. None of this is left once the graph or the trace is replaced.

* `Channel.opened`: a channel that is started at a time and has taken its first step. Nothing of what
  it was before goes into that but its trace and its flag for looping (`settle_restart`).
* `runDue_settles`, `perform_write`: a write opens the channels that it starts over, and leaves the
  others as they are.
* `after_writes`: some writes leave the graph set last, and each channel opened on it with what was
  bound to it last.
* `last_write_wins`: so writes that agree on these leave the same graph, clock and channels.
-/
namespace TracePlayback

/-! ## Writes -/

namespace Operation

/-- A write gives the timeline a graph, or a channel a trace or none. -/
def isWrite : Operation → Bool
  | .setGraph _ => true
  | .bind _ _ => true
  | _ => false

def graph? : Operation → Option Graph
  | .setGraph g => some g
  | _ => none

/-- What an operation binds to a channel: a trace, or none. -/
def bound? (n : ChannelName) : Operation → Option (Option Trace)
  | .bind name trace => if name = n then some trace else none
  | _ => none

end Operation

/-- The graph that is set last. -/
def lastGraph? (ops : List Operation) : Option Graph := (ops.filterMap Operation.graph?).getLast?

/-- What is bound to a channel last. -/
def lastBound? (n : ChannelName) (ops : List Operation) : Option (Option Trace) :=
  (ops.filterMap (Operation.bound? n)).getLast?

theorem lastGraph?_concat (ops : List Operation) (op : Operation) :
    lastGraph? (ops ++ [op]) = op.graph?.or (lastGraph? ops) := by
  unfold lastGraph?
  rw [List.filterMap_append, List.getLast?_append]
  cases h : op.graph? <;> simp [h]

theorem lastBound?_concat (n : ChannelName) (ops : List Operation) (op : Operation) :
    lastBound? n (ops ++ [op]) = (op.bound? n).or (lastBound? n ops) := by
  unfold lastBound?
  rw [List.filterMap_append, List.getLast?_append]
  cases h : op.bound? n <;> simp [h]

/-! ## A channel at an instant -/

namespace Channel

/-- The channel after it has run the step that is due at a time, if one is. -/
def settle (c : Channel) (s : PlaybackSettings) (g : Graph) (now : Nat) : Channel :=
  match c.fire? s g now with
  | some (_, _, c') => c'
  | none => c

/-- A channel that is started at a time on a trace, or on none, after the step that it takes at
once. -/
def opened (trace : Option Trace) (looping : Bool) (s : PlaybackSettings) (g : Graph) (now : Nat) :
    Channel :=
  (restart { trace := trace, looping := looping } now).settle s g now

theorem settle_of_later {c : Channel} (s : PlaybackSettings) (g : Graph) {now : Nat}
    (h : ∀ d, c.due = some d → now < d) : c.settle s g now = c := by
  unfold settle
  cases hd : c.due with
  | none => rw [fire?_of_due_none s g now hd]
  | some d => rw [fire?_of_lt hd (h d hd)]

theorem due_of_fire? {c c' : Channel} {s : PlaybackSettings} {g : Graph} {now : Nat}
    {steps : List Step} (hnow : now < Clock.last)
    (h : c.fire? s g now = some (now, steps, c')) : ∀ d, c'.due = some d → now < d := by
  intro d hd
  have := (fire?_due h hd).2
  omega

theorem fire?_given {c c' : Channel} {s : PlaybackSettings} {g : Graph} {now time : Nat}
    {steps : List Step} (h : c.fire? s g now = some (time, steps, c')) :
    c'.trace = c.trace ∧ c'.looping = c.looping := by
  obtain ⟨-, -, trace, -, ⟨i, -, hp⟩ | ⟨-, hp⟩⟩ := fire?_cases h
  · rw [play_eq] at hp
    obtain ⟨-, rfl⟩ := Prod.mk.inj hp
    exact ⟨rfl, rfl⟩
  · obtain ⟨-, rfl⟩ := Prod.mk.inj hp
    exact ⟨rfl, rfl⟩

theorem opened_given (trace : Option Trace) (looping : Bool) (s : PlaybackSettings) (g : Graph)
    (now : Nat) :
    (opened trace looping s g now).trace = trace ∧
      (opened trace looping s g now).looping = looping := by
  unfold opened settle
  split
  · rename_i h
    have hgiven := fire?_given h
    exact hgiven
  · exact ⟨rfl, rfl⟩

/-- Starting over forgets all that a channel has done: only what it was given is left. -/
theorem settle_restart (c : Channel) (s : PlaybackSettings) (g : Graph) (now : Nat) :
    (c.restart now).settle s g now = opened c.trace c.looping s g now := rfl

theorem settle_bind (c : Channel) (trace : Option Trace) (s : PlaybackSettings) (g : Graph)
    (now : Nat) : (c.bind trace now).settle s g now = opened trace c.looping s g now := rfl

end Channel

namespace Timeline

/-! ## One write -/

/-- Where nothing is pending before the clock, the loop settles every channel. -/
theorem runDue_settles {t : Timeline} {now n : Nat} (hnow : now < Clock.last)
    (hdue : ∀ c d, (t.channel c).due = some d → now ≤ d)
    (hb : (runDue now n t).2.hasBacklog now = false) (c : ChannelName) :
    (runDue now n t).2.channel c = (t.channel c).settle t.settings t.graph now := by
  -- a channel that has taken its step is settled, so no turn changes where a channel settles
  have hinv := runDue_invariant (P := fun u => u.graph = t.graph ∧ u.settings = t.settings ∧
    ∀ c, (∀ d, (u.channel c).due = some d → now ≤ d) ∧
      (u.channel c).settle t.settings t.graph now = (t.channel c).settle t.settings t.graph now)
    now ?_ n t ⟨rfl, rfl, fun c => ⟨hdue c, rfl⟩⟩
  · rw [← (hinv.2.2 c).2, Channel.settle_of_later]
    exact hasBacklog_eq_false_iff.mp hb c
  · rintro u name due ⟨hg, hs, hch⟩ he hle
    have hd := earliest?_due he
    obtain rfl : due = now := Nat.le_antisymm hle ((hch name).1 due hd)
    obtain ⟨-, hg', hs', hother⟩ := fire_frame hd
    refine ⟨hg'.trans hg, hs'.trans hs, fun c => ?_⟩
    by_cases hc : c = name
    · subst hc
      have hsettle := (hch c).2
      rw [fire_channel hd, hg, hs]
      unfold Channel.settle at hsettle
      cases hf : (u.channel c).fire? t.settings t.graph due with
      | none => exact hch c
      | some r =>
        obtain ⟨time, steps, c'⟩ := r
        obtain rfl : due = time := Option.some.inj (hd.symm.trans (Channel.fire?_cases hf).1)
        have hlater := Channel.due_of_fire? hnow hf
        rw [hf] at hsettle
        exact ⟨fun d h => Nat.le_of_lt (hlater d h),
          (Channel.settle_of_later _ _ hlater).trans hsettle⟩
    · rw [hother c hc]; exact hch c

/-- A write settles every channel, and nothing is due after it. -/
theorem perform_write {t : Timeline} (h : t.Coherent) (hcu : t.CaughtUp) (hnow : t.now < Clock.last)
    {op : Operation} (hop : op.isWrite = true) :
    (t.perform op).2.CaughtUp ∧ (t.perform op).2.now = t.now ∧
      ∀ c, (t.perform op).2.channel c =
        ((t.edit op).channel c).settle t.settings (t.edit op).graph t.now := by
  have htarget : t.target? op = some t.now := by
    cases op with
    | setGraph g => rfl
    | bind name trace => rfl
    | _ => cases hop
  have hclock : (t.perform op).2.now = t.now :=
    perform_now_self op fun _ ht => Nat.le_of_eq (Option.some.inj (ht.symm.trans htarget))
  have hshort : t.stopsShort op = false := stopsShort_of_small_move h hcu (by omega) (by omega)
  refine ⟨caughtUp_perform hcu hshort, hclock, fun c => ?_⟩
  have hdue : ∀ n d, ((t.edit op).channel n).due = some d → t.now ≤ d := by
    intro n d hd
    rcases edit_pending hd with hold | ⟨rfl, -⟩
    · exact Nat.le_of_lt (hasBacklog_eq_false_iff.mp hcu.2 n d hold)
    · exact Nat.le_refl _
  rw [stopsShort, htarget, Option.any_some, perform_eq, htarget] at hshort
  rw [perform_eq, htarget]
  simp only [advanceTo_eq, atTime_hasBacklog, atTime_channel, Nat.min_eq_left hcu.1] at hshort ⊢
  rw [runDue_settles hnow hdue hshort c, edit_settings]

/-! ## Several writes -/

/-- What some writes leave of a channel: it is untouched, or opened on the graph set last with what
was bound to it last. -/
def written (t : Timeline) (ops : List Operation) (c : ChannelName) : Channel :=
  if lastGraph? ops = none ∧ lastBound? c ops = none then t.channel c
  else
    .opened ((lastBound? c ops).getD (t.channel c).trace) (t.channel c).looping t.settings
      ((lastGraph? ops).getD t.graph) t.now

theorem written_given (t : Timeline) (ops : List Operation) (c : ChannelName) :
    (t.written ops c).trace = (lastBound? c ops).getD (t.channel c).trace ∧
      (t.written ops c).looping = (t.channel c).looping := by
  unfold written
  split
  · rename_i h; rw [h.2]; exact ⟨rfl, rfl⟩
  · exact Channel.opened_given _ _ _ _ _

/-- A graph that is set opens what the writes before it have left. -/
theorem written_setGraph (t : Timeline) (ops : List Operation) (g : Graph) (c : ChannelName) :
    t.written (ops ++ [.setGraph g]) c =
      .opened (t.written ops c).trace (t.written ops c).looping t.settings g t.now := by
  have hgraph : lastGraph? (ops ++ [.setGraph g]) = some g := lastGraph?_concat ops _
  have hbound : lastBound? c (ops ++ [.setGraph g]) = lastBound? c ops := lastBound?_concat c ops _
  obtain ⟨htrace, hlooping⟩ := t.written_given ops c
  rw [htrace, hlooping, written, hgraph, hbound, if_neg (by simp), Option.getD_some]

/-- A trace that is bound opens its channel on the graph that the writes before it have left. -/
theorem written_bind (t : Timeline) (ops : List Operation) (name : ChannelName)
    (trace : Option Trace) (c : ChannelName) :
    t.written (ops ++ [.bind name trace]) c =
      if c = name then
        .opened trace (t.written ops c).looping t.settings ((lastGraph? ops).getD t.graph) t.now
      else t.written ops c := by
  have hgraph : lastGraph? (ops ++ [.bind name trace]) = lastGraph? ops := lastGraph?_concat ops _
  have hbound : lastBound? c (ops ++ [.bind name trace]) =
      (if name = c then some trace else none).or (lastBound? c ops) := lastBound?_concat c ops _
  rw [(t.written_given ops c).2]
  by_cases hc : c = name
  · subst hc
    rw [if_pos rfl] at hbound ⊢
    rw [written, hgraph, hbound, if_neg (by simp)]
    rfl
  · rw [if_neg (Ne.symm hc)] at hbound
    rw [if_neg hc, written, hgraph, hbound]
    rfl

/-- Some writes leave the graph set last, and every channel as `written` says. -/
theorem after_writes {t : Timeline} (h : t.Coherent) (hcu : t.CaughtUp) (hnow : t.now < Clock.last)
    {ops : List Operation} (hops : ∀ op ∈ ops, op.isWrite = true) :
    (t.after ops).CaughtUp ∧ (t.after ops).now = t.now ∧ (t.after ops).settings = t.settings ∧
      (t.after ops).graph = (lastGraph? ops).getD t.graph ∧
      ∀ c, (t.after ops).channel c = t.written ops c := by
  induction ops using List.reverseRecOn with
  | nil => exact ⟨hcu, rfl, rfl, rfl, fun _ => rfl⟩
  | append_singleton ops op ih =>
    obtain ⟨hcu', hnow', hset', hg', hch'⟩ :=
      ih fun op hop => hops op (List.mem_append_left _ hop)
    have hop := hops op (by simp)
    obtain ⟨h1, h2, h3⟩ := perform_write (h.after ops) hcu' (by omega) hop
    rw [after_concat]
    refine ⟨h1, h2.trans hnow', (perform_settings _ _).trans hset', ?_, fun c => ?_⟩
    · rw [perform_graph, edit_graph, lastGraph?_concat, hg']
      cases op <;> rfl
    · rw [h3 c, hset', hnow']
      cases op with
      | setGraph g =>
        change (((t.after ops).renewed g).channel c).settle t.settings g t.now = _
        rw [(h.after ops).renewed_channel, written_setGraph, hnow', hch', Channel.settle_restart]
      | bind name trace =>
        rw [edit_graph, hg', written_bind]
        change (((t.after ops).setChannel name _).channel c).settle _ _ _ = _
        rw [channel_setChannel, hnow']
        split
        · rename_i hc
          subst hc
          rw [hch', Channel.settle_bind]
        · -- the other channel has nothing due
          have hlater := hasBacklog_eq_false_iff.mp hcu'.2 c
          rw [hnow'] at hlater
          rw [Channel.settle_of_later _ _ hlater, hch']
      | _ => cases hop

/-- **The last write wins.** Take any timeline that a run can reach, with nothing due at its time and
the clock not at its end. Two sequences of writes that agree on whether a graph is set and on the
last one, and for each channel on whether something is bound to it and on what is bound last, leave
the same graph, the same clock and the same channels: it does not matter in which order they come,
how often, and what else is written on the way. The graph and the traces are those written last, and
the clock has not moved. -/
theorem last_write_wins (s : PlaybackSettings) (a : AudioSettings) (k : Sink)
    (before xs ys : List Operation) (hnow : ((new s a k).after before).now < Clock.last)
    (hdue : ((new s a k).after before).hasBacklog ((new s a k).after before).now = false)
    (hxs : ∀ op ∈ xs, op.isWrite = true) (hys : ∀ op ∈ ys, op.isWrite = true)
    (hgraph : lastGraph? xs = lastGraph? ys) (hbound : ∀ c, lastBound? c xs = lastBound? c ys) :
    let t := (new s a k).after before
    ((t.after xs).graph = (t.after ys).graph ∧ (t.after xs).now = (t.after ys).now ∧
        ∀ c, (t.after xs).channel c = (t.after ys).channel c) ∧
      (t.after xs).graph = (lastGraph? xs).getD t.graph ∧ (t.after xs).now = t.now ∧
        ∀ c, ((t.after xs).channel c).trace = (lastBound? c xs).getD (t.channel c).trace := by
  intro t
  have ht : t.Coherent := (coherent_new s a k).after before
  obtain ⟨-, hxnow, -, hxgraph, hxchannel⟩ := after_writes ht ⟨Nat.le_of_lt hnow, hdue⟩ hnow hxs
  obtain ⟨-, hynow, -, hygraph, hychannel⟩ := after_writes ht ⟨Nat.le_of_lt hnow, hdue⟩ hnow hys
  refine ⟨⟨?_, hxnow.trans hynow.symm, fun c => ?_⟩, hxgraph, hxnow, fun c => ?_⟩
  · rw [hxgraph, hygraph, hgraph]
  · rw [hxchannel, hychannel, written, written, hgraph, hbound]
  · rw [hxchannel, (t.written_given xs c).1]

/-- A graph and a live trace arrive, and no recording is left: by way of the empty graph, of an empty
trace that has ended at once and of another recording. -/
def detour : List Operation :=
  [.bind .live (some (.live ⟨#[]⟩)), .setGraph .empty, .bind .live (some (.live ⟨#[2, 1]⟩)),
    .bind .ghost (some (.ghost ⟨#[⟨1, 0⟩]⟩)), .setGraph .pair, .bind .ghost none]

theorem detour_forgotten :
    let before := [.setGraph .pair, .bind .ghost (some (.ghost ⟨#[⟨2, 0⟩, ⟨1, 300⟩]⟩)),
      .advanceBy 250]
    let direct := [.bind .ghost none, .setGraph .pair, .bind .live (some (.live ⟨#[2, 1]⟩))]
    let t := (new {} {} .silent).after before
    t.now = 250 ∧ t.hasBacklog t.now = false ∧ (∀ op ∈ detour ++ direct, op.isWrite = true) ∧
      lastGraph? detour = lastGraph? direct ∧ (∀ c, lastBound? c detour = lastBound? c direct) ∧
      (t.after detour).channel .live = (t.after direct).channel .live ∧
      ((t.after direct).channel .live).activeNode = some ⟨"loop"⟩ := by
  intro before direct t
  have hgraph : lastGraph? detour = lastGraph? direct := rfl
  have hbound : ∀ c, lastBound? c detour = lastBound? c direct := fun c => by cases c <;> rfl
  refine ⟨by decide, by decide, by decide, hgraph, hbound, ?_, by decide⟩
  exact (last_write_wins {} {} .silent before detour direct (by decide) (by decide) (by decide)
    (by decide) hgraph hbound).1.2.2 .live

end Timeline
end TracePlayback
