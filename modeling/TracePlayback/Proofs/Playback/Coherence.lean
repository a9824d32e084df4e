import TracePlayback.Proofs.Playback.Operation

/-!
# What holds of a channel at all times

The fields of a channel depend on each other, on the graph and on the clock: `Channel.Coherent` says
how. `restart`, `play` and `finish` each restore all of it, the first for any graph, so that a new
graph may be put under a timeline as long as all its channels start over.

* `coherent_fire?`: one step of a channel keeps it coherent.
* `coherent_fire`, `coherent_edit`, `Coherent.after`: so does a turn of the loop, the edit of every
  operation, and a whole run.
* `coherent_after`: after every run from a new timeline, calls that stop short included, both
  channels are coherent, and the timeline is idle exactly if each of them is unbound or finished.
-/
namespace TracePlayback

/-! ## Landing stays inside the graph -/

theorem Trace.contains_of_landing? {t : Trace} {g : Graph} {i : Nat} {node : Node}
    (h : t.landing? g i = some node) : g.contains node.id = true := by
  simp only [Graph.contains, List.any_eq_true, decide_eq_true_eq]
  exact ⟨node, mem_of_landing? h, rfl⟩

namespace Channel

/-- How the fields of a channel fit together, on a graph and at a time. -/
structure Coherent (g : Graph) (now : Nat) (c : Channel) : Prop where
  /-- A step is pending exactly while a trace is bound and not played to its end. -/
  pending_iff : c.due.isSome = true ↔ c.trace.isSome = true ∧ c.finished = false
  cursor_le : c.cursor ≤ c.length
  finished : c.finished = true →
    c.trace.isSome = true ∧ c.cursor = c.length ∧ c.activeNode = none ∧ c.activeLink = none
  unbound : c.trace = none →
    c.cursor = 0 ∧ c.activeNode = none ∧ c.activeLink = none ∧ c.due = none ∧ c.lastAdvance = none
  /-- The active node is in the graph, and some entry of the trace lands on it. -/
  node : ∀ id, c.activeNode = some id →
    g.contains id = true ∧
      ∃ trace i node, c.trace = some trace ∧ trace.landing? g i = some node ∧ node.id = id
  /-- The active link leads from another node of the graph to the active one. -/
  link : ∀ l, c.activeLink = some l →
    c.activeNode = some l.target ∧ l.source ≠ l.target ∧
      g.contains l.source = true ∧ g.contains l.target = true
  last_none_iff : c.lastAdvance = none ↔ c.cursor = 0 ∧ c.finished = false
  last_le_now : ∀ time, c.lastAdvance = some time → time ≤ now
  /-- The pending step is due after the last one, unless the clock is at its end. -/
  last_lt_due : ∀ time due, c.lastAdvance = some time → c.due = some due →
    time < due ∨ due = Clock.last

theorem Coherent.mono {g : Graph} {now later : Nat} {c : Channel} (h : Coherent g now c)
    (hle : now ≤ later) : Coherent g later c :=
  { h with last_le_now := fun time ht => Nat.le_trans (h.last_le_now time ht) hle }

/-! ## Starting over -/

theorem coherent_restart (c : Channel) (g : Graph) (start now : Nat) :
    Coherent g now (c.restart start) := by
  constructor
  · simp [restart]
  · exact Nat.zero_le _
  · intro h; cases h
  · intro h
    have ht : c.trace = none := h
    simp [restart, ht]
  · intro id h; cases h
  · intro l h; cases h
  · simp [restart]
  · intro time h; cases h
  · intro time due h; cases h

/-- An unbound channel has nothing to cancel. -/
theorem Coherent.cancel_eq_restart {g : Graph} {now : Nat} {c : Channel} (h : Coherent g now c)
    (ht : c.trace = none) (start : Nat) : c.cancel = c.restart start := by
  obtain ⟨h1, h2, h3, h4, h5⟩ := h.unbound ht
  have hf : c.finished = false := by
    cases hf : c.finished with
    | false => rfl
    | true => have := (h.finished hf).1; rw [ht] at this; cases this
  cases c
  simp_all [cancel, restart]

/-! ## A step -/

theorem coherent_play {g : Graph} {now later time i : Nat} {c : Channel} {trace : Trace}
    (s : PlaybackSettings) (h : Coherent g now c) (ht : c.trace = some trace)
    (hd : c.due = some time) (hi : c.next? = some i) (hle : time ≤ later) :
    Coherent g later (c.play s g trace i time).2 := by
  have hf : c.finished = false := (h.pending_iff.mp (by rw [hd]; rfl)).2
  have hlen : i < trace.length := by simpa [length, ht] using next?_lt hi
  rw [play_eq]
  constructor
  · simp [ht, hf]
  · simp only [length, ht, Option.map_some, Option.getD_some]
    exact hlen
  · intro hfin; simp only [hf] at hfin; cases hfin
  · intro hnone; simp only [ht] at hnone; cases hnone
  · intro id hid
    cases hl : trace.landing? g i with
    | none =>
      simp only [hl, Option.elim_none] at hid
      exact h.node id hid
    | some node =>
      simp only [hl, Option.elim_some, Option.some.injEq] at hid
      subst hid
      exact ⟨Trace.contains_of_landing? hl, trace, i, node, ht, hl, rfl⟩
  · intro l hlink
    cases hl : trace.landing? g i with
    | none =>
      simp only [hl, Option.elim_none] at hlink ⊢
      exact h.link l hlink
    | some node =>
      have hin := Trace.contains_of_landing? hl
      simp only [hl, Option.elim_some] at hlink ⊢
      unfold ActiveLink.ofLanding at hlink
      split at hlink
      · rename_i p hp
        split at hlink
        · rename_i heq
          -- a revisit: the link still ends where it did
          obtain ⟨h1, h2, h3, h4⟩ := h.link l hlink
          rw [hp] at h1
          exact ⟨by rw [← heq]; exact h1, h2, h3, h4⟩
        · rename_i hne
          cases hlink
          exact ⟨rfl, hne, (h.node p hp).1, hin⟩
      · rename_i hp
        have := (h.link l hlink).1
        rw [hp] at this; cases this
  · simp [hf]
  · intro t' ht'
    simp only [Option.some.injEq] at ht'
    omega
  · intro t' due ht' hdue
    simp only [Option.some.injEq] at ht' hdue
    subst ht' hdue
    exact lt_after _ (one_le_delayAfter s trace i)

theorem coherent_finish {g : Graph} {now later time : Nat} {c : Channel} {trace : Trace}
    (h : Coherent g now c) (ht : c.trace = some trace) (hi : c.next? = none) (hle : time ≤ later) :
    Coherent g later (c.finish time).2 := by
  have hcur : c.cursor = c.length := by
    have hc := h.cursor_le
    unfold next? at hi
    split at hi
    · cases hi
    · omega
  constructor
  · simp [finish]
  · exact h.cursor_le
  · intro _
    exact ⟨by simp [finish, ht], hcur, rfl, rfl⟩
  · intro hnone; simp only [finish, ht] at hnone; cases hnone
  · intro id hid; cases hid
  · intro l hl; cases hl
  · simp [finish]
  · intro t' ht'
    simp only [finish, Option.some.injEq] at ht'
    omega
  · intro t' due _ hdue; cases hdue

/-- Every step keeps a channel coherent. -/
theorem coherent_fire? {g : Graph} {now later time : Nat} {c c' : Channel} {s : PlaybackSettings}
    {steps : List Step} (h : Coherent g now c) (hs : c.fire? s g later = some (time, steps, c')) :
    Coherent g later c' := by
  obtain ⟨hd, hle, trace, ht, ⟨i, hi, hp⟩ | ⟨hi, hp⟩⟩ := fire?_cases hs
  · have := coherent_play s h ht hd hi hle
    rw [hp] at this; exact this
  · have := coherent_finish h ht hi hle
    rw [hp] at this; exact this

end Channel

namespace Timeline

/-! ## Both channels -/

/-- Both channels fit the graph and the clock. -/
def Coherent (t : Timeline) : Prop := ∀ n, (t.channel n).Coherent t.graph t.now

theorem coherent_new (s : PlaybackSettings) (a : AudioSettings) (k : Sink) :
    (new s a k).Coherent := by
  intro n
  cases n with
  | live => exact Channel.coherent_restart { looping := s.loopLive } _ 0 _
  | ghost => exact Channel.coherent_restart { looping := s.loopGhost } _ 0 _

theorem coherent_atTime {t : Timeline} (h : t.Coherent) {now : Nat} (hn : t.now ≤ now) :
    (t.atTime now).Coherent := by
  intro n
  rw [atTime_channel]
  exact (h n).mono hn

theorem coherent_fire {t : Timeline} (h : t.Coherent) {name : ChannelName} {due : Nat}
    (hd : (t.channel name).due = some due) : (t.fire name due).2.Coherent := by
  intro n
  obtain ⟨hnow, hg, -, hother⟩ := fire_frame hd
  rw [hnow, hg]
  by_cases hn : n = name
  · subst hn
    rw [fire_eq hd]
    cases hf : (t.channel n).fire? t.settings t.graph due with
    | none =>
      simp only [atTime_channel]
      exact (h n).mono (Nat.le_max_left _ _)
    | some r =>
      obtain ⟨time, steps, c⟩ := r
      have hc := Channel.coherent_fire? (h n) hf
      cases n <;> exact hc.mono (Nat.le_max_right _ _)
  · rw [hother n hn]
    exact (h n).mono (Nat.le_max_left _ _)

theorem coherent_setChannel {t : Timeline} (h : t.Coherent) {name : ChannelName} {c : Channel}
    (hc : c.Coherent t.graph t.now) : (t.setChannel name c).Coherent := by
  intro n
  rw [channel_setChannel, setChannel_graph, setChannel_now]
  split
  · exact hc
  · exact h n

/-- A graph starts every channel over, also one that has no trace. -/
theorem Coherent.renewed_channel {t : Timeline} (h : t.Coherent) (g : Graph) (c : ChannelName) :
    (t.renewed g).channel c = (t.channel c).restart t.now := by
  rw [Timeline.renewed_channel]
  split
  · rfl
  · rename_i ht
    exact (h c).cancel_eq_restart (Option.not_isSome_iff_eq_none.mp ht) t.now

theorem coherent_edit {t : Timeline} (h : t.Coherent) (op : Operation) : (t.edit op).Coherent := by
  cases op with
  | setGraph g =>
    intro n
    change ((t.renewed g).channel n).Coherent g t.now
    rw [h.renewed_channel]
    exact Channel.coherent_restart _ _ _ _
  | bind name trace =>
    exact coherent_setChannel h (Channel.coherent_restart { t.channel name with trace } _ _ _)
  | setLooping name looping =>
    -- no field of the invariant reads the flag
    exact coherent_setChannel h { h name with }
  | setAudio audio =>
    intro n
    cases n with
    | live => exact h .live
    | ghost => exact h .ghost
  | setSink sink =>
    intro n
    cases n with
    | live => exact h .live
    | ghost => exact h .ghost
  | advanceBy ms => exact h
  | advanceTo target => exact h

/-- A coherent timeline is idle exactly if no channel has anything left to play. -/
theorem Coherent.isIdle_iff {t : Timeline} (h : t.Coherent) :
    t.isIdle = true ↔ ∀ n, (t.channel n).trace = none ∨ (t.channel n).finished = true := by
  have hidle : t.isIdle = true ↔ ∀ n, (t.channel n).due = none := by
    simp only [isIdle, nextDeadline?, Option.isNone_iff_eq_none, Option.map_eq_none_iff]
    constructor
    · intro he n; exact earliest?_none he n
    · intro hn
      cases he : t.earliest? with
      | none => rfl
      | some p => have := earliest?_due he; rw [hn p.1] at this; cases this
  rw [hidle]
  refine forall_congr' fun n => ?_
  have hp := (h n).pending_iff
  cases hd : (t.channel n).due <;> cases ht : (t.channel n).trace <;>
    cases hf : (t.channel n).finished <;> simp_all

theorem Coherent.after {t : Timeline} (h : t.Coherent) (ops : List Operation) :
    (t.after ops).Coherent := by
  refine after_invariant (P := Timeline.Coherent) ?_ ?_ ?_ ops t h
  · intro u op hu
    exact coherent_edit hu op
  · intro u name due hu he _
    exact coherent_fire hu (earliest?_due he)
  · intro u target hu _
    exact coherent_atTime hu (Nat.le_max_left _ _)

/-- **Coherence.** After every run, calls that stop short included, both channels fit together
with the graph and the clock; so the timeline is idle exactly if every channel is unbound or
finished. -/
theorem coherent_after (s : PlaybackSettings) (a : AudioSettings) (k : Sink)
    (ops : List Operation) :
    let t := (new s a k).after ops
    (∀ n, (t.channel n).Coherent t.graph t.now) ∧
      (t.isIdle = true ↔ ∀ n, (t.channel n).trace = none ∨ (t.channel n).finished = true) := by
  have h : ((new s a k).after ops).Coherent := (coherent_new s a k).after ops
  exact ⟨h, h.isIdle_iff⟩

end Timeline
end TracePlayback
