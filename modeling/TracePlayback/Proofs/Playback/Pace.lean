import TracePlayback.Proofs.Playback.Unlimited

/-!
# Small moves leave no backlog

Every delay is at least a millisecond, so each channel takes at most one step a millisecond, and two
channels at most `maxSteps` in `longestMove` milliseconds. `Channel.window` counts the milliseconds
that a channel has up to a target: each step uses up one of them at least (`window_fire?_lt`), so a
loop with as many turns as the windows of both channels hold runs all that is due
(`hasBacklog_runDue_of_window`).

* `small_moves_no_backlog`: as long as no call moves the clock by more than `longestMove`
  milliseconds or to its end, nothing is due after any call, and no call stops at its limit.
-/
namespace TracePlayback.Timeline

/-- The farthest move of the clock that leaves nothing due, whatever the traces and delays are. -/
def longestMove : Nat := 5000

/-- No call of a run moves the clock by more than `longestMove`, or to its end. -/
def movesLittle (t : Timeline) : List Operation → Bool
  | [] => true
  | op :: ops =>
    (t.perform op).2.now ≤ t.now + longestMove && (t.perform op).2.now < Clock.last &&
      (t.perform op).2.movesLittle ops

/-- A loop that has a turn for every millisecond of the windows runs all that is due. -/
theorem hasBacklog_runDue_of_window {t : Timeline} (h : t.Coherent) {target n : Nat}
    (hT : target < Clock.last) (hn : t.live.window target + t.ghost.window target ≤ n) :
    (runDue target n t).2.hasBacklog target = false := by
  obtain ⟨turns, hrun, -, hlen⟩ := runDue_unlimited h target n
  rcases hlen with heq | ⟨-, hb⟩
  · have hused := hrun.length_add_le (fun _ => True) (Channel.window target)
      (fun c c' s g due steps _ hle hf => ⟨trivial, Channel.window_fire?_lt hT hle hf⟩)
      (fun _ => trivial)
    -- all the windows are used up
    have hzero : ∀ c, ((runDue target n t).2.channel c).window target = 0 := by
      intro c
      cases c with
      | live => change ((runDue target n t).2.atTime t.now).live.window target = 0; omega
      | ghost => change ((runDue target n t).2.atTime t.now).ghost.window target = 0; omega
    rw [hasBacklog_eq_false_iff]
    intro c due hdue
    have hwindow := hzero c
    simp only [Channel.window, hdue] at hwindow
    omega
  · exact hb

/-- A call that moves the clock a little finds windows that the limit of steps can cover. -/
theorem window_edit_le {t : Timeline} {op : Operation} {target : Nat} (hcu : t.CaughtUp)
    (ht : t.target? op = some target) (hmove : min target Clock.last ≤ t.now + longestMove)
    (n : ChannelName) : ((t.edit op).channel n).window (min target Clock.last) ≤ longestMove := by
  unfold Channel.window
  cases hd : ((t.edit op).channel n).due with
  | none => exact Nat.zero_le _
  | some due =>
    simp only
    rcases edit_pending hd with hold | ⟨rfl, hnow⟩
    · have hlater := hasBacklog_eq_false_iff.mp hcu.2 n due hold
      omega
    · -- what the edit has started is due at once, and the call goes no further than that
      rw [ht] at hnow
      obtain rfl := Option.some.inj hnow
      have hone : 1 ≤ longestMove := by decide
      omega

theorem stopsShort_of_small_move {t : Timeline} {op : Operation} (h : t.Coherent)
    (hcu : t.CaughtUp) (hmove : (t.perform op).2.now ≤ t.now + longestMove)
    (hlast : (t.perform op).2.now < Clock.last) : t.stopsShort op = false := by
  unfold stopsShort
  cases ht : t.target? op with
  | none => rfl
  | some target =>
    have hnow : (t.perform op).2.now = max t.now (min target Clock.last) := by
      rw [perform_now, ht]
    rw [hnow] at hmove hlast
    have hwindow := window_edit_le hcu ht (by omega)
    have hlive := hwindow .live
    have hghost := hwindow .ghost
    have htwice : longestMove + longestMove = maxSteps := rfl
    rw [Option.any_some, perform_eq, ht]
    simp only [advanceTo_eq, atTime_hasBacklog]
    refine hasBacklog_runDue_of_window (coherent_edit h op) (by omega) ?_
    simp only [channel] at hlive hghost
    omega

theorem CaughtUp.run {t : Timeline} (h : t.Coherent) (hcu : t.CaughtUp) {ops : List Operation}
    (hm : t.movesLittle ops = true) :
    (∀ before, before <+: ops → (t.after before).CaughtUp) ∧ t.keepsUp ops = true := by
  induction ops generalizing t with
  | nil =>
    refine ⟨?_, rfl⟩
    intro before hb
    rw [List.prefix_nil.mp hb]; exact hcu
  | cons op ops ih =>
    simp only [movesLittle, Bool.and_eq_true, decide_eq_true_eq] at hm
    obtain ⟨⟨hmove, hlast⟩, hrest⟩ := hm
    have hs := stopsShort_of_small_move h hcu hmove hlast
    have hnext : (t.perform op).2.Coherent := h.after [op]
    obtain ⟨hafter, hkeeps⟩ := ih hnext (caughtUp_perform hcu hs) hrest
    refine ⟨?_, by simp only [keepsUp, hs, hkeeps, Bool.not_false, Bool.and_self]⟩
    intro before hb
    cases before with
    | nil => exact hcu
    | cons op' before =>
      obtain ⟨rfl, hbefore⟩ := List.cons_prefix_cons.mp hb
      exact hafter before hbefore

/-- **Small moves leave no backlog.** Take a run in which no call moves the clock by more than
`longestMove` milliseconds or to its end, on any graphs and traces and with any delays, none
included. After each of its calls the next step is due later than the clock shows, if one is pending
at all, and no call stops at its limit of steps. -/
theorem small_moves_no_backlog (s : PlaybackSettings) (a : AudioSettings) (k : Sink)
    (ops : List Operation) (h : (new s a k).movesLittle ops = true) :
    (∀ before, before <+: ops → ∀ due,
        ((new s a k).after before).nextDeadline? = some due →
          ((new s a k).after before).now < due) ∧
      (new s a k).keepsUp ops = true := by
  obtain ⟨hafter, hkeeps⟩ := (caughtUp_new s a k).run (coherent_new s a k) h
  refine ⟨?_, hkeeps⟩
  intro before hb due hdue
  have hnone := (hafter before hb).2
  simpa only [hasBacklog, hdue, Option.any_some, decide_eq_false_iff_not, Nat.not_le] using hnone

/-- Two traces that loop without delays, and frames of up to five milliseconds. -/
def busy : List Operation :=
  [.setGraph .pair, .bind .live (some (.live ⟨#[1, 2]⟩)), .advanceBy 5,
    .bind .ghost (some (.ghost ⟨#[⟨2, 0⟩]⟩)), .advanceTo 3, .advanceBy 4, .setGraph .pair]

theorem busy_no_backlog :
    let start := new ⟨0, 0, 0, true, true⟩ {} .silent
    start.movesLittle busy = true ∧ start.keepsUp busy = true ∧
      (start.after busy).now = 9 ∧ (start.after busy).nextDeadline? = some 10 ∧
      ((start.after busy).nextDeadline? = some 10 → (start.after busy).now < 10) :=
  ⟨by decide, (small_moves_no_backlog _ _ _ busy (by decide)).2, by decide, by decide,
    (small_moves_no_backlog _ _ _ busy (by decide)).1 busy (List.prefix_refl _) 10⟩

end TracePlayback.Timeline
