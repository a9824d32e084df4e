import TracePlayback.Proofs.Playback.Finality
import TracePlayback.Proofs.Playback.Unlimited

/-!
# Sleeping until the next deadline

A host need not look at a timeline all the time: it can sleep until the next deadline, advance the
timeline to it, and sleep again (`deadlines`). It misses nothing, it never wakes up for nothing, and
it sees what any other host sees that goes on until nothing is pending.

Whatever targets a timeline is advanced to, it runs a beginning of one and the same run, the one
without a limit of steps up to the last millisecond of the clock (`advances_unlimited`). That run has
only one end (`Unlimited.eq_of_isIdle`), so all ways to get to it show the same.

* `advanceTo_quiet`: an advance that does not reach the deadline moves the clock only.
* `advanceTo_progress`: one that does runs a step.
* `isIdle_deadlines`: without loops, as many calls as there are steps left are enough.
* `ends_of_advances`: each channel that has a step pending shows the end of its trace once.
* `sleep_until_deadline`: all of it, for any timeline that a run can reach.
-/
namespace TracePlayback

/-- How many ends of traces are among some events. -/
def endsIn (events : List Event) : Nat := events.countP fun e => e.step = .finished

theorem endsIn_append (a b : List Event) : endsIn (a ++ b) = endsIn a + endsIn b :=
  List.countP_append

theorem endsIn_ofLanding (c : ChannelName) (time : Nat) (g : Graph) (previous : Option NodeId)
    (node : Node) :
    endsIn ((Step.ofLanding g previous node).map fun step => ⟨c, time, step⟩) = 0 := by
  refine List.countP_eq_zero.mpr fun e he => ?_
  obtain ⟨step, hstep, rfl⟩ := List.mem_map.mp he
  rcases Step.mem_ofLanding hstep with ⟨revisit, rfl⟩ | ⟨source, linked, rfl⟩
  · simp
  · simp

theorem Channel.fire?_looping {c c' : Channel} {s : PlaybackSettings} {g : Graph} {now time : Nat}
    {steps : List Step} (h : c.fire? s g now = some (time, steps, c')) : c'.looping = c.looping := by
  obtain ⟨-, -, trace, -, ⟨i, -, hp⟩ | ⟨-, hp⟩⟩ := fire?_cases h
  · rw [play_eq] at hp
    obtain ⟨-, rfl⟩ := Prod.mk.inj hp
    rfl
  · obtain ⟨-, rfl⟩ := Prod.mk.inj hp
    rfl

namespace Timeline

/-! ## Advances one after the other -/

/-- Advances to some targets, one after the other. -/
def advances (targets : List Nat) : List Operation := targets.map .advanceTo

/-- The deadlines that a host advances to which sleeps until each of them: `n`, or fewer if nothing
is pending any more. -/
def deadlines (t : Timeline) : Nat → List Nat
  | 0 => []
  | n + 1 =>
    match t.nextDeadline? with
    | none => []
    | some due => due :: (t.advanceTo due).2.deadlines n

theorem length_deadlines_le (t : Timeline) (n : Nat) : (t.deadlines n).length ≤ n := by
  induction n generalizing t with
  | zero => exact Nat.le_refl 0
  | succ n ih =>
    unfold deadlines
    split
    · exact Nat.zero_le _
    · exact Nat.succ_le_succ (ih _)

theorem undisturbed_advances (t : Timeline) (c : ChannelName) (targets : List Nat) :
    t.undisturbed c (advances targets) = true := by
  induction targets generalizing t with
  | nil => rfl
  | cons target rest ih => exact Bool.and_eq_true_iff.mpr ⟨rfl, ih _⟩

theorem isIdle_iff_due {t : Timeline} : t.isIdle = true ↔ ∀ n, (t.channel n).due = none := by
  simp only [isIdle, nextDeadline?, Option.isNone_iff_eq_none, Option.map_eq_none_iff]
  constructor
  · intro he n
    exact earliest?_none he n
  · intro hn
    cases he : t.earliest? with
    | none => rfl
    | some p => have := earliest?_due he; rw [hn p.1] at this; cases this

/-! ## The run that all of them are a beginning of -/

variable {target : Nat} {t u : Timeline} {turns : List Turn}

theorem Unlimited.mono {later : Nat} (h : Unlimited target t turns u) (hle : target ≤ later) :
    Unlimited later t turns u := by
  induction h with
  | start t => exact .start t
  | turn hfirst hdue hf _ ih => exact .turn hfirst (Nat.le_trans hdue hle) hf ih

theorem Unlimited.append {more : List Turn} {v : Timeline} (h : Unlimited target t turns u)
    (h' : Unlimited target u more v) : Unlimited target t (turns ++ more) v := by
  induction h with
  | start t => exact h'
  | turn hfirst hdue hf _ ih => exact .turn hfirst hdue hf (ih h')

/-- There is no clock in the run without a limit. -/
theorem Unlimited.now_eq (h : Unlimited target t turns u) : u.now = t.now := by
  induction h with
  | start t => rfl
  | @turn t u x c rest _ _ _ _ ih => exact ih.trans (setChannel_now t x.channel c)

/-- The run without a limit has one end: two beginnings that leave nothing pending are the same. -/
theorem Unlimited.eq_of_isIdle {turns' : List Turn} {u' : Timeline} (h : Unlimited target t turns u)
    (h' : Unlimited target t turns' u') (hu : u.isIdle = true) (hu' : u'.isIdle = true) :
    turns' = turns ∧ u' = u := by
  -- whichever of the two is shorter cannot go on
  have hstop : ∀ {v w : Timeline} {more : List Turn}, v.isIdle = true → Unlimited target v more w →
      more = [] ∧ w = v := by
    intro v w more hv hmore
    cases hmore with
    | start => exact ⟨rfl, rfl⟩
    | turn hfirst _ _ _ =>
      have := hfirst.1
      rw [isIdle_iff_due.mp hv] at this
      cases this
  rcases Nat.le_total turns.length turns'.length with hle | hle
  · obtain ⟨more, rfl, hmore⟩ := h.resume h' hle
    obtain ⟨rfl, rfl⟩ := hstop hu hmore
    exact ⟨List.append_nil _, rfl⟩
  · obtain ⟨more, rfl, hmore⟩ := h'.resume h hle
    obtain ⟨rfl, rfl⟩ := hstop hu' hmore
    exact ⟨(List.append_nil _).symm, rfl⟩

/-- An advance is a beginning of the run without a limit, and then the clock. -/
theorem advanceTo_unlimited (h : t.Coherent) {target : Nat} (hT : target ≤ Clock.last) :
    ∃ turns u, Unlimited target t turns u ∧
      t.advanceTo target = (turns.flatMap Turn.events, u.atTime (max t.now target)) ∧
      (turns.length = maxSteps ∨ u.hasBacklog target = false) := by
  obtain ⟨turns, hrun, hevents, hlen⟩ := runDue_unlimited h target maxSteps
  refine ⟨turns, _, hrun, ?_, ?_⟩
  · rw [advanceTo_eq, Nat.min_eq_left hT, hevents]
    rfl
  · rcases hlen with heq | ⟨-, hb⟩
    · exact Or.inl heq
    · exact Or.inr hb

theorem advanceTo_min (t : Timeline) (target : Nat) :
    t.advanceTo target = t.advanceTo (min target Clock.last) := by
  rw [advanceTo_eq, advanceTo_eq, Nat.min_assoc, Nat.min_self]

/-- Any advances, one after the other, run a beginning of the same run. -/
theorem advances_unlimited (h : t.Coherent) (targets : List Nat) :
    ∃ turns, Unlimited Clock.last t turns ((t.after (advances targets)).atTime t.now) ∧
      (t.calls (advances targets)).flatMap (·.2) = turns.flatMap Turn.events := by
  induction targets generalizing t with
  | nil => exact ⟨[], .start t, rfl⟩
  | cons target rest ih =>
    have hT := Nat.min_le_right target Clock.last
    obtain ⟨first, u, hrun, hadvance, -⟩ := advanceTo_unlimited h hT
    rw [← advanceTo_min] at hadvance
    obtain ⟨more, hrest, hmore⟩ := ih (h.after [.advanceTo target])
    refine ⟨first ++ more, (hrun.mono hT).append ?_, ?_⟩
    · -- the rest of the advances start at a later clock, which the run does not look at
      have hstart : (t.after [.advanceTo target]).atTime t.now = u := by
        change (t.advanceTo target).2.atTime t.now = u
        rw [hadvance, ← hrun.now_eq]
        rfl
      have hback := hrest.atTime t.now
      rw [hstart] at hback
      exact hback
    · change (t.advanceTo target).1 ++
        ((t.after [.advanceTo target]).calls (advances rest)).flatMap (·.2) = _
      rw [List.flatMap_append, ← hmore, hadvance]

/-! ## One call -/

/-- An advance that does not reach the next deadline moves the clock, and nothing else. -/
theorem advanceTo_quiet {target : Nat} (hT : target ≤ Clock.last)
    (h : t.hasBacklog target = false) : t.advanceTo target = ([], t.atTime (max t.now target)) := by
  rw [advanceTo_eq, Nat.min_eq_left hT, runDue_stop h]

/-- An advance that reaches the next deadline runs the step that is due then, and maybe more. -/
theorem advanceTo_progress (h : t.Coherent) {target due : Nat} (hT : target ≤ Clock.last)
    (hd : t.nextDeadline? = some due) (hle : due ≤ target) :
    ∃ x rest u, x.due = due ∧ Unlimited target t (x :: rest) u ∧
      t.advanceTo target = ((x :: rest).flatMap Turn.events, u.atTime (max t.now target)) := by
  obtain ⟨turns, u, hrun, hadvance, hlen⟩ := advanceTo_unlimited h hT
  cases hrun with
  | start =>
    rcases hlen with hzero | hb
    · cases hzero
    · simp [hasBacklog, hd, hle] at hb
  | @turn _ _ x c rest hfirst hdue hf hrest =>
    have he := earliest?_eq_some_iff.mpr hfirst
    rw [nextDeadline?, he] at hd
    exact ⟨x, rest, u, Option.some.inj hd, .turn hfirst hdue hf hrest, hadvance⟩

/-! ## Until nothing is pending -/

/-- How many steps are left, if no channel loops. -/
def remaining (t : Timeline) : Nat := t.live.remaining + t.ghost.remaining

/-- Without loops, the run without a limit has as many steps fewer left as it takes. -/
theorem Unlimited.remaining_add_le (h : Unlimited target t turns u)
    (hl : ∀ n, (t.channel n).looping = false) : turns.length + u.remaining ≤ t.remaining :=
  h.length_add_le (fun c => c.looping = false) Channel.remaining
    (fun _ _ _ _ _ _ hc _ hf => Channel.remaining_fire?_lt hc hf) hl

theorem perform_looping (t : Timeline) (op : Operation) (n : ChannelName) :
    ((t.perform op).2.channel n).looping = ((t.edit op).channel n).looping :=
  perform_keeps (P := fun _ c => c.looping = ((t.edit op).channel n).looping) op []
    (fun _ _ _ _ _ hc hf => (Channel.fire?_looping hf).trans hc) rfl

theorem remaining_advanceTo_le (h : t.Coherent) (hl : ∀ n, (t.channel n).looping = false)
    (target : Nat) : (t.advanceTo target).2.remaining ≤ t.remaining := by
  obtain ⟨turns, u, hrun, hadvance, -⟩ :=
    advanceTo_unlimited h (Nat.min_le_right target Clock.last)
  have hused := hrun.remaining_add_le hl
  rw [advanceTo_min, hadvance]
  exact Nat.le_trans (Nat.le_add_left _ _) hused

theorem remaining_advanceTo_lt (h : t.Coherent) (hl : ∀ n, (t.channel n).looping = false)
    {target due : Nat} (hT : target ≤ Clock.last) (hd : t.nextDeadline? = some due)
    (hle : due ≤ target) : (t.advanceTo target).2.remaining < t.remaining := by
  obtain ⟨x, rest, u, -, hrun, hadvance⟩ := advanceTo_progress h hT hd hle
  have hused := hrun.remaining_add_le hl
  rw [List.length_cons] at hused
  rw [hadvance]
  change u.remaining < t.remaining
  omega

/-- Without loops, as many calls as there are steps left are enough. -/
theorem isIdle_deadlines {time n : Nat} (h : t.Coherent) (hs : Since (.live, time) t)
    (hl : ∀ c, (t.channel c).looping = false) (hn : t.remaining ≤ n) :
    (t.after (advances (t.deadlines n))).isIdle = true := by
  induction n generalizing t time with
  | zero =>
    refine isIdle_iff_due.mpr fun c => ?_
    change (t.channel c).due = none
    have hzero : (t.channel c).remaining = 0 := by
      unfold remaining at hn
      cases c <;> simp only [channel] <;> omega
    cases hd : (t.channel c).due with
    | none => rfl
    | some due => simp [Channel.remaining, hd] at hzero
  | succ n ih =>
    unfold deadlines
    cases hd : t.nextDeadline? with
    | none => simp [advances, after, isIdle, hd]
    | some due =>
      have hT : due ≤ Clock.last := by
        obtain ⟨p, he, rfl⟩ := Option.map_eq_some_iff.mp hd
        exact hs.due_le p.1 p.2 (earliest?_due he)
      have hlt := remaining_advanceTo_lt h hl hT hd (Nat.le_refl due)
      have hkept (c : ChannelName) := (t.perform_looping (.advanceTo due) c).trans (hl c)
      obtain ⟨later, hnext, -⟩ := hs.perform (.advanceTo due)
      exact ih (h.after [.advanceTo due]) hnext hkept (Nat.le_of_lt_succ (Nat.lt_of_lt_of_le hlt hn))

/-! ## The ends of the traces -/

/-- A step that is pending is paid for by the end of the trace. -/
theorem persists_ends (c : ChannelName) (total : Nat) :
    Persists c fun shown ch => (ch.trace = none → ch.due = none) ∧
      endsIn shown + (if ch.due.isSome then 1 else 0) = total where
  step := by
    rintro shown ch ch' s g now time steps ⟨-, hcount⟩ hf
    obtain ⟨hdue, -, trace, htrace, ⟨i, -, hp⟩ | ⟨-, hp⟩⟩ := Channel.fire?_cases hf
    · rw [Channel.play_eq] at hp
      obtain ⟨rfl, rfl⟩ := Prod.mk.inj hp
      have hnone : endsIn ((((trace.landing? g i).map (Step.ofLanding g ch.activeNode)).getD []).map
          fun step => ⟨c, time, step⟩) = 0 := by
        cases trace.landing? g i with
        | none => rfl
        | some node => exact endsIn_ofLanding c time g ch.activeNode node
      refine ⟨fun hnt => (nomatch htrace.symm.trans hnt), ?_⟩
      rw [hdue] at hcount
      rw [endsIn_append, hnone]
      exact hcount
    · obtain ⟨rfl, rfl⟩ := Prod.mk.inj hp
      refine ⟨fun _ => rfl, ?_⟩
      rw [hdue] at hcount
      rw [endsIn_append]
      simpa [endsIn] using hcount
  looping := fun _ h => h
  cancel := by
    rintro shown ch ⟨hdue, hcount⟩ hnone
    have hd := hdue hnone
    exact ⟨fun _ => rfl, by simpa [Channel.cancel, hd] using hcount⟩

/-- When nothing is pending any more, every channel that had a step pending has shown the end of its
trace once, and no other channel has shown one. -/
theorem ends_of_advances (h : t.Coherent) (targets : List Nat)
    (hidle : (t.after (advances targets)).isIdle = true) (c : ChannelName) :
    endsIn (eventsOf c ((t.calls (advances targets)).flatMap (·.2))) =
      if (t.channel c).due.isSome then 1 else 0 := by
  have hstart : endsIn [] + (if (t.channel c).due.isSome then 1 else 0) =
      if (t.channel c).due.isSome then 1 else 0 := Nat.zero_add _
  have hunbound : (t.channel c).trace = none → (t.channel c).due = none := fun ht =>
    ((h c).unbound ht).2.2.2.1
  obtain ⟨-, hend⟩ := (persists_ends c _).run ⟨hunbound, hstart⟩ (t.undisturbed_advances c targets)
  rw [isIdle_iff_due.mp hidle c] at hend
  exact hend

/-- **A host may sleep until the next deadline.** For any timeline that a run can reach:

* an advance that does not reach the next deadline shows nothing and sounds nothing; only the clock
  moves;
* an advance that reaches it runs the step that is due then, and maybe more;
* if no channel loops, advancing to the next deadline again and again leaves nothing pending after at
  most as many calls as there are steps left, and each channel that had a step pending shows the end
  of its trace once;
* and by then the host has seen the events, heard the tones and reached the channels that any other
  advances lead to which leave nothing pending. -/
theorem sleep_until_deadline (s : PlaybackSettings) (a : AudioSettings) (k : Sink)
    (ops : List Operation) :
    let t := (new s a k).after ops
    (∀ target : UInt64, (∀ due, t.nextDeadline? = some due → target.toNat < due) →
        t.advanceTo target.toNat = ([], t.atTime (max t.now target.toNat))) ∧
      (∀ (target : UInt64) (due : Nat), t.nextDeadline? = some due → due ≤ target.toNat →
        ∃ x rest u, x.due = due ∧ Unlimited target.toNat t (x :: rest) u ∧
          t.advanceTo target.toNat =
            ((x :: rest).flatMap Turn.events, u.atTime (max t.now target.toNat))) ∧
      ((∀ c, (t.channel c).looping = false) →
        let woken := advances (t.deadlines t.remaining)
        let shown := (t.calls woken).flatMap (·.2)
        woken.length ≤ t.remaining ∧ (t.after woken).isIdle = true ∧
          (∀ c, endsIn (eventsOf c shown) = if (t.channel c).due.isSome then 1 else 0) ∧
          ∀ targets : List UInt64,
            let others := advances (targets.map UInt64.toNat)
            (t.after others).isIdle = true →
              (t.calls others).flatMap (·.2) = shown ∧
                (t.after others).sink = (t.after woken).sink ∧
                ∀ c, (t.after others).channel c = (t.after woken).channel c) := by
  intro t
  have ht : t.Coherent := (coherent_new s a k).after ops
  obtain ⟨time, hsince⟩ := (since_new s a k).after ops
  have hfit (target : UInt64) : target.toNat ≤ Clock.last := Nat.le_of_lt_succ target.toNat_lt
  refine ⟨?_, ?_, ?_⟩
  · intro target hbefore
    refine advanceTo_quiet (hfit target) ?_
    unfold hasBacklog
    cases hd : t.nextDeadline? with
    | none => rfl
    | some due => simpa using hbefore due hd
  · intro target due hd hle
    exact advanceTo_progress ht (hfit target) hd hle
  · intro hl woken shown
    have hidle : (t.after woken).isIdle = true := isIdle_deadlines ht hsince hl (Nat.le_refl _)
    refine ⟨?_, hidle, ends_of_advances ht _ hidle, ?_⟩
    · rw [show woken.length = (t.deadlines t.remaining).length from List.length_map _]
      exact t.length_deadlines_le _
    · intro targets others hothers
      obtain ⟨turns, hrun, hshown⟩ := advances_unlimited ht (t.deadlines t.remaining)
      obtain ⟨turns', hrun', hshown'⟩ := advances_unlimited ht (targets.map UInt64.toNat)
      obtain ⟨rfl, hend⟩ := hrun.eq_of_isIdle hrun' hidle hothers
      have hsink : ((t.after others).atTime t.now).sink = ((t.after woken).atTime t.now).sink :=
        congrArg Timeline.sink hend
      refine ⟨hshown'.trans hshown.symm, hsink, fun c => ?_⟩
      have hc := congrArg (fun u => u.channel c) hend
      simpa only [atTime_channel] using hc

/-- Two traces, one with an entry that lands nowhere. There are five steps left, and a host that goes
on to targets of its own sees the same. -/
theorem sleep_until_deadline_pair :
    let t := (new {} {} (.recorder #[])).after [.setGraph .pair,
      .bind .live (some (.live ⟨#[1, 9, 2]⟩)), .bind .ghost (some (.live ⟨#[2, 1]⟩))]
    let woken := advances (t.deadlines t.remaining)
    let shown := (t.calls woken).flatMap (·.2)
    let targets : List UInt64 := [700, 100, 5000]
    let others := advances (targets.map UInt64.toNat)
    (∀ due, t.nextDeadline? = some due → (7 : UInt64).toNat < due) ∧
      t.nextDeadline? = some 500 ∧ 500 ≤ (700 : UInt64).toNat ∧
      (∀ c, (t.channel c).looping = false) ∧ (t.after others).isIdle = true ∧
      t.advanceTo 7 = ([], t.atTime (max t.now 7)) ∧
      (∃ x rest u, x.due = 500 ∧ Unlimited 700 t (x :: rest) u) ∧
      t.remaining = 5 ∧ woken.length ≤ 5 ∧ (∀ c, endsIn (eventsOf c shown) = 1) ∧
      (t.calls others).flatMap (·.2) = shown := by
  intro t woken shown targets others
  have hbefore : ∀ due, t.nextDeadline? = some due → (7 : UInt64).toNat < due := by
    intro due hd
    obtain rfl : 500 = due := Option.some.inj hd
    decide
  have hnext : t.nextDeadline? = some 500 := by decide
  have hloops : ∀ c, (t.channel c).looping = false := by rintro (_ | _) <;> decide
  have hpending : ∀ c, (t.channel c).due.isSome = true := by rintro (_ | _) <;> decide
  have hidle : (t.after others).isIdle = true := by decide +kernel
  have hleft : t.remaining = 5 := by decide
  obtain ⟨hquiet, hwake, hends⟩ := sleep_until_deadline {} {} (.recorder #[]) [.setGraph .pair,
    .bind .live (some (.live ⟨#[1, 9, 2]⟩)), .bind .ghost (some (.live ⟨#[2, 1]⟩))]
  obtain ⟨x, rest, u, hx, hrun, -⟩ := hwake 700 500 hnext (by decide)
  obtain ⟨hlen, -, hend, hsame⟩ := hends hloops
  refine ⟨hbefore, hnext, by decide, hloops, hidle, hquiet 7 hbefore, ⟨x, rest, u, hx, hrun⟩, hleft,
    hleft ▸ hlen, fun c => ?_, (hsame targets hidle).1⟩
  rw [hend c, if_pos (hpending c)]

end Timeline
end TracePlayback
