import TracePlayback.Proofs.Playback.Deadline
import TracePlayback.Proofs.Playback.Pace
import TracePlayback.Proofs.Playback.Performance

/-!
# On the way through a performance

A channel that is played in a timeline, beside another one and within the limit of steps, goes through
its performance like one that is called on its own. `Performance.Progress` says how far it is and what
it has shown: the events of the first steps (`told`), and nothing else.

How far it is follows from the clock. `Timeline.Abreast` says that nothing is left that was due by a
time, the last millisecond of the clock excepted, at which no end of the steps is in sight.

* `Progress.step`: a channel stays on its way.
* `perform_abreast`: advances of up to `longestMove` milliseconds leave a timeline abreast, the one to
  the end of the clock included.
* `Progress.told_of_abreast`: abreast of the clock, a channel has shown all that is stamped by then.
* `Progress.told_of_idle`: with nothing pending, it has shown all of it, and the end once.
-/
namespace TracePlayback

namespace Performance

variable {p : Performance} {c : ChannelName}

/-! ## What has been shown -/

def stepEvents (p : Performance) (c : ChannelName) (k : Nat) : List Event :=
  match p.step? k with
  | some (time, steps) => steps.map fun step => ⟨c, time, step⟩
  | none => []

/-- The events of the first steps. -/
def told (p : Performance) (c : ChannelName) (n : Nat) : List Event :=
  (List.range n).flatMap (p.stepEvents c)

theorem told_succ (p : Performance) (c : ChannelName) (n : Nat) :
    p.told c (n + 1) = p.told c n ++ p.stepEvents c n := by
  rw [told, List.range_succ, List.flatMap_append, List.flatMap_singleton]
  rfl

theorem step?_of_plays {k : Nat} (h : p.plays k = true) :
    p.step? k = some (p.stamp k, p.shows k) := by
  rw [step?, h, if_pos rfl]

theorem step?_end (h : p.plays p.trace.length = false) :
    p.step? p.trace.length = some (p.stamp p.trace.length, [.finished]) := by
  rw [step?, h, if_neg (by decide), if_pos rfl]

theorem step?_stamp {k time : Nat} {steps : List Step} (h : p.step? k = some (time, steps)) :
    time = p.stamp k := by
  unfold step? at h
  split at h
  · exact (congrArg Prod.fst (Option.some.inj h)).symm
  · split at h
    · exact (congrArg Prod.fst (Option.some.inj h)).symm
    · cases h

theorem endsIn_stepEvents {k : Nat} (h : p.plays k = true) : endsIn (p.stepEvents c k) = 0 := by
  unfold stepEvents
  rw [step?_of_plays h]
  simp only [shows]
  cases p.landing? k with
  | none => rfl
  | some node => exact endsIn_ofLanding c _ _ _ _

theorem endsIn_told (h : p.plays p.trace.length = false) :
    endsIn (p.told c (p.trace.length + 1)) = 1 := by
  have hentries : ∀ k ≤ p.trace.length, endsIn (p.told c k) = 0 := by
    intro k hk
    induction k with
    | zero => rfl
    | succ k ih =>
      have hplays : p.plays k = true := by
        rw [plays, decide_eq_true (Nat.lt_of_succ_le hk)]; rfl
      rw [told_succ, endsIn_append, ih (Nat.le_of_succ_le hk), endsIn_stepEvents hplays]
  rw [told_succ, endsIn_append, hentries _ (Nat.le_refl _), stepEvents, step?_end h]
  rfl

/-! ## The stamps -/

theorem stamp_le_last (h : p.start ≤ Clock.last) (k : Nat) : p.stamp k ≤ Clock.last := by
  cases k with
  | zero => exact h
  | succ k => exact Nat.min_le_right _ _

theorem stamp_mono (h : p.start ≤ Clock.last) {j k : Nat} (hjk : j ≤ k) : p.stamp j ≤ p.stamp k := by
  induction hjk with
  | refl => exact Nat.le_refl _
  | @step k _ ih =>
    refine Nat.le_trans ih ?_
    rw [stamp]
    exact Nat.le_min.mpr ⟨Nat.le_add_right _ _, stamp_le_last h k⟩

/-! ## How far a channel is -/

/-- How far a channel is that was given the trace of a performance, and what it has shown since. -/
inductive Progress (p : Performance) (c : ChannelName) : List Event → Channel → Prop where
  | playing {k : Nat} {ch : Channel} (at_step : p.At k ch) : Progress p c (p.told c k) ch
  | ended {ch : Channel} (ends : p.plays p.trace.length = false) (trace : ch.trace = some p.trace)
      (due : ch.due = none) (cursor : ch.cursor = p.trace.length) :
      Progress p c (p.told c (p.trace.length + 1)) ch

theorem cursor_length (h : p.plays p.trace.length = false) :
    p.cursor p.trace.length = p.trace.length := by
  cases hl : p.looping with
  | false => exact p.cursor_of_not_looping hl _
  | true =>
    have hzero : p.trace.length = 0 := by simpa [plays, hl] using h
    rw [hzero]
    rfl

theorem Progress.step {shown : List Event} {ch ch' : Channel} {now time : Nat} {steps : List Step}
    (h : p.Progress c shown ch) (hf : ch.fire? p.settings p.graph now = some (time, steps, ch')) :
    p.Progress c (shown ++ steps.map fun step => ⟨c, time, step⟩) ch' := by
  obtain ⟨hdue, hnow, trace, -, hexit⟩ := Channel.fire?_cases hf
  cases h with
  | ended _ _ hnone _ => rw [hnone] at hdue; cases hdue
  | @playing k _ h =>
    obtain rfl : p.stamp k = time := Option.some.inj (h.due.symm.trans hdue)
    cases hp : p.plays k with
    | true =>
      obtain ⟨next, hnext, hat⟩ := h.fire hp hnow
      rw [hf] at hnext
      cases hnext
      have htold := p.told_succ c k
      rw [stepEvents, step?_of_plays hp] at htold
      exact htold ▸ playing hat
    | false =>
      have hfinish : ch.finish (p.stamp k) = (steps, ch') := by
        obtain ⟨i, hi, -⟩ | ⟨-, hfinish⟩ := hexit
        · rw [p.next?_of_cursor h.trace h.looping h.cursor, hp] at hi
          cases hi
        · exact hfinish
      obtain ⟨rfl, rfl⟩ := Prod.mk.inj hfinish
      obtain rfl := (h.finish hp hnow).1
      have htold := p.told_succ c p.trace.length
      rw [stepEvents, step?_end hp] at htold
      -- the end leaves the cursor where it is
      exact htold ▸ ended hp h.trace rfl (h.cursor.trans (cursor_length hp))

theorem Progress.trace {shown : List Event} {ch : Channel} (h : p.Progress c shown ch) :
    ch.trace = some p.trace := by
  cases h with
  | playing hat => exact hat.trace
  | ended _ htrace _ _ => exact htrace

/-- With nothing pending, the performance is over. -/
theorem Progress.told_of_idle {shown : List Event} {ch : Channel} (h : p.Progress c shown ch)
    (hd : ch.due = none) :
    shown = p.told c (p.trace.length + 1) ∧ endsIn shown = 1 ∧ ch.cursor = p.trace.length := by
  cases h with
  | playing hat => rw [hat.due] at hd; cases hd
  | ended hends _ _ hcursor => exact ⟨rfl, endsIn_told hends, hcursor⟩

end Performance

namespace Timeline

variable {t : Timeline}

/-! ## Abreast of the clock -/

/-- No step is pending that was due by a time. Of the last millisecond nothing is said: all that the
clock cannot tell apart is due then. -/
def Abreast (time : Nat) (t : Timeline) : Prop :=
  t.hasBacklog (min time (Clock.last - 1)) = false

/-- Where nothing was due by a time, a step that is due later leaves nothing due by it. -/
theorem hasBacklog_fire {mid : Nat} (hm : mid < Clock.last) (h : t.hasBacklog mid = false)
    {name : ChannelName} {due : Nat} (hd : (t.channel name).due = some due) :
    (t.fire name due).2.hasBacklog mid = false := by
  rw [hasBacklog_eq_false_iff] at h ⊢
  intro n d hn
  by_cases hname : n = name
  · subst hname
    rw [fire_channel hd] at hn
    split at hn
    · exact h n d hn
    · rename_i time steps c hf
      have hlate := h n due hd
      obtain rfl : due = time := Option.some.inj (hd.symm.trans (Channel.fire?_cases hf).1)
      have := (Channel.fire?_due hf hn).2
      omega
  · rw [(fire_frame hd).2.2.2 n hname] at hn
    exact h n d hn

/-- A loop to a later target runs what is due earlier first. -/
theorem hasBacklog_runDue_of_le {mid target n : Nat} (hm : mid < Clock.last) (hle : mid ≤ target)
    (h : (runDue mid n t).2.hasBacklog mid = false) :
    (runDue target n t).2.hasBacklog mid = false := by
  induction n generalizing t with
  | zero => exact h
  | succ n ih =>
    rcases backlog_cases t mid with hb | ⟨name, due, he, hdue⟩
    · refine runDue_invariant (P := fun u => u.hasBacklog mid = false) target ?_ _ _ hb
      intro u name due hu he _
      exact hasBacklog_fire hm hu (earliest?_due he)
    · rw [runDue_step he hdue] at h
      rw [runDue_step he (Nat.le_trans hdue hle)]
      exact ih h

/-- A call that advances a little leaves a timeline abreast of its target. -/
theorem perform_abreast (hc : t.Coherent) {op : Operation} {time target : Nat}
    (ht : t.target? op = some target) (h : t.Abreast time) (hmove : target ≤ time + longestMove) :
    (t.perform op).2.Abreast target := by
  have hlast : 0 < Clock.last := by decide
  have hm : min target (Clock.last - 1) < Clock.last := by omega
  have hwindow : ∀ n, ((t.edit op).channel n).window (min target (Clock.last - 1)) ≤ longestMove := by
    intro n
    unfold Channel.window
    cases hd : ((t.edit op).channel n).due with
    | none => exact Nat.zero_le _
    | some due =>
      simp only
      rcases edit_pending hd with hold | ⟨rfl, hnow⟩
      · have hlater := hasBacklog_eq_false_iff.mp h n due hold
        omega
      · -- what the edit has started is due at once, and the call goes no further than that
        obtain rfl := Option.some.inj (ht.symm.trans hnow)
        have hone : 1 ≤ longestMove := by decide
        omega
  have hlive := hwindow .live
  have hghost := hwindow .ghost
  have htwice : longestMove + longestMove = maxSteps := rfl
  simp only [channel] at hlive hghost
  rw [perform_eq, ht]
  simp only [Abreast, advanceTo_eq, atTime_hasBacklog]
  refine hasBacklog_runDue_of_le hm (by omega) ?_
  exact hasBacklog_runDue_of_window (coherent_edit hc op) hm (by omega)

end Timeline

namespace Performance

variable {p : Performance} {c : ChannelName}

/-- Abreast of a time, a channel has taken all the steps that are stamped by then. -/
theorem Progress.told_of_abreast {t : Timeline} {shown : List Event} {now : Nat}
    (h : p.Progress c shown (t.channel c)) (hstart : p.start ≤ Clock.last) (ha : t.Abreast now) :
    ∃ n, shown = p.told c n ∧ ∀ k time steps, p.step? k = some (time, steps) → time ≤ now →
      time < Clock.last → k < n := by
  generalize hch : t.channel c = ch at h
  cases h with
  | @playing n _ hat =>
    refine ⟨n, rfl, fun k time steps hstep hnow hlast => ?_⟩
    obtain rfl := step?_stamp hstep
    have hlater := Timeline.hasBacklog_eq_false_iff.mp ha c (p.stamp n) (hch ▸ hat.due)
    refine Nat.lt_of_not_le fun hle => ?_
    have hmono := stamp_mono hstart hle
    omega
  | ended hends _ _ _ =>
    refine ⟨_, rfl, fun k time steps hstep _ _ => Nat.lt_of_not_le fun hle => ?_⟩
    rw [step?_of_lt hends (Nat.lt_of_succ_le hle)] at hstep
    cases hstep

end Performance
end TracePlayback
