import Mathlib.Data.ENat.Lattice
import Mathlib.Order.CompletePartialOrder
import TracePlayback.Proofs.Playback.Chronology
import TracePlayback.Proofs.Playback.Coherence

/-!
# The limit of steps only defers

`Unlimited` is the run that an advance would make if it had no limit of steps: as long as a step is
due by the target, the channel whose step is due first takes it, stamped with the time it was due.
There is no clock in it. It may be endless, so it is given by its finite beginnings, and its length
`unlimitedLength` may be infinite.

* `runDue_unlimited`: the loop of an advance is a beginning of the run without a limit, as long as
  its turns allow or to the end.
* `advances_eq`: calling the same advance again and again is one loop with the turns of all calls.
* `Unlimited.length_add_le`: a measure of a channel that every step lowers bounds the length. There
  is one for targets before the clock's last millisecond (`Channel.window`), and one for channels
  that do not loop (`Channel.remaining`).
* `limit_defers`: calling an advance `n` times runs the first `n * maxSteps` steps of the run
  without a limit, or all of them if there are not so many, and nothing else.
-/
namespace TracePlayback

/-- A step that a channel takes in a run: when it was due, and what it shows. -/
structure Turn where
  channel : ChannelName
  due : Nat
  steps : List Step

/-- The events of a step, stamped with the time it was due. -/
def Turn.events (x : Turn) : List Event := x.steps.map fun step => ⟨x.channel, x.due, step⟩

namespace Timeline

/-! ## The run without a limit -/

/-- The timeline after a step that leaves its channel as `c`. The clock does not move. -/
def taken (t : Timeline) (x : Turn) (c : Channel) : Timeline :=
  { t.setChannel x.channel c with sink := t.sinkAfter x.steps }

/-- A beginning of the run without a limit: the steps that it takes, and the timeline after them. -/
inductive Unlimited (target : Nat) : Timeline → List Turn → Timeline → Prop
  | start (t : Timeline) : Unlimited target t [] t
  | turn {t u : Timeline} {x : Turn} {c : Channel} {rest : List Turn} :
      t.DueFirst x.channel x.due → x.due ≤ target →
      (t.channel x.channel).fire? t.settings t.graph x.due = some (x.due, x.steps, c) →
      Unlimited target (t.taken x c) rest u → Unlimited target t (x :: rest) u

/-- How many steps the run without a limit takes. -/
noncomputable def unlimitedLength (t : Timeline) (target : Nat) : ℕ∞ :=
  sSup {n | ∃ turns u, Unlimited target t turns u ∧ n = (turns.length : ℕ∞)}

variable {target : Nat} {t u : Timeline} {turns : List Turn}

theorem taken_channel (t : Timeline) (x : Turn) (c : Channel) (n : ChannelName) :
    (t.taken x c).channel n = if n = x.channel then c else t.channel n := by
  have h := channel_setChannel t x.channel n c
  cases n <;> exact h

theorem DueFirst.atTime {name : ChannelName} {due : Nat} (h : t.DueFirst name due) (now : Nat) :
    (t.atTime now).DueFirst name due := by
  refine ⟨by rw [atTime_channel]; exact h.1, ?_⟩
  intro n d hd
  rw [atTime_channel] at hd
  exact h.2 n d hd

theorem DueFirst.unique {name name' : ChannelName} {due due' : Nat} (h : t.DueFirst name due)
    (h' : t.DueFirst name' due') : name = name' ∧ due = due' :=
  Prod.mk.inj (InOrder.antisymm (h.2 name' due' h'.1) (h'.2 name due h.1))

theorem Unlimited.atTime (h : Unlimited target t turns u) (now : Nat) :
    Unlimited target (t.atTime now) turns (u.atTime now) := by
  induction h with
  | start t => exact .start _
  | @turn t u x c rest hfirst hle hf _ ih =>
    refine .turn (hfirst.atTime now) hle (by rw [atTime_channel]; exact hf) ?_
    have htaken : (t.atTime now).taken x c = (t.taken x c).atTime now := by
      unfold taken
      cases x.channel <;> rfl
    rw [htaken]
    exact ih

/-- Of two beginnings, the longer one goes on where the shorter one ends. -/
theorem Unlimited.resume {turns' : List Turn} {u' : Timeline} (h : Unlimited target t turns u)
    (h' : Unlimited target t turns' u') (hle : turns.length ≤ turns'.length) :
    ∃ more, turns' = turns ++ more ∧ Unlimited target u more u' := by
  induction h generalizing turns' with
  | start t => exact ⟨turns', rfl, h'⟩
  | @turn t u x c rest hfirst _ hf _ ih =>
    cases h' with
    | start => simp at hle
    | @turn _ _ y c' rest' hfirst' _ hf' hrest' =>
      obtain ⟨hname, hdue⟩ := hfirst.unique hfirst'
      rw [← hname, ← hdue, hf] at hf'
      have hsame := Option.some.inj hf'
      obtain rfl : x = y := by
        cases x; cases y
        simp only [Prod.mk.injEq] at hsame hname hdue ⊢
        simp only [hname, hdue, hsame]
      obtain rfl : c = c' := by simp only [Prod.mk.injEq] at hsame; exact hsame.2.2
      obtain ⟨more, rfl, hmore⟩ := ih hrest' (Nat.le_of_succ_le_succ hle)
      exact ⟨more, rfl, hmore⟩

/-! ## Its length -/

theorem Unlimited.length_le (h : Unlimited target t turns u) :
    (turns.length : ℕ∞) ≤ t.unlimitedLength target :=
  le_sSup ⟨turns, u, h, rfl⟩

theorem Unlimited.length_eq (h : Unlimited target t turns u) (hb : u.hasBacklog target = false) :
    t.unlimitedLength target = turns.length := by
  refine le_antisymm (sSup_le ?_) h.length_le
  rintro _ ⟨turns', u', h', rfl⟩
  rcases Nat.lt_or_ge turns.length turns'.length with hlt | hge
  · obtain ⟨more, rfl, hmore⟩ := h.resume h' (Nat.le_of_lt hlt)
    cases hmore with
    | start => simp at hlt
    | turn hfirst hle _ _ =>
      have := hasBacklog_eq_false_iff.mp hb _ _ hfirst.1
      omega
  · exact Nat.cast_le.mpr hge

/-- A measure of a channel that every step lowers, as long as the channel has some property, bounds
the length of the run. -/
theorem Unlimited.length_add_le (P : Channel → Prop) (size : Channel → Nat)
    (hstep : ∀ (c c' : Channel) s g due steps, P c → due ≤ target →
      c.fire? s g due = some (due, steps, c') → P c' ∧ size c' < size c)
    (h : Unlimited target t turns u) (hP : ∀ n, P (t.channel n)) :
    turns.length + (size u.live + size u.ghost) ≤ size t.live + size t.ghost := by
  induction h with
  | start t => simp
  | @turn t u x c rest _ hle hf _ ih =>
    obtain ⟨hc, hlt⟩ := hstep _ _ _ _ _ _ (hP x.channel) hle hf
    have hih := ih (by
      intro n
      rw [taken_channel]
      split
      · exact hc
      · exact hP n)
    have hl := taken_channel t x c .live
    have hg := taken_channel t x c .ghost
    simp only [channel] at hl hg
    rw [hl, hg] at hih
    rw [List.length_cons]
    cases hx : x.channel <;> simp only [hx, channel] at hlt hih <;> simp at hih <;> omega

end Timeline

namespace Channel

/-- How many milliseconds there are from the pending step to the target, both included. -/
def window (target : Nat) (c : Channel) : Nat :=
  match c.due with
  | some due => target + 1 - due
  | none => 0

/-- How many steps a channel that does not loop has left. -/
def remaining (c : Channel) : Nat :=
  match c.due with
  | some _ => c.length - c.cursor + 1
  | none => 0

/-- Every step leaves less time to the target, if the clock goes further than that. -/
theorem window_fire?_lt {c c' : Channel} {s : PlaybackSettings} {g : Graph} {target due : Nat}
    {steps : List Step} (hT : target < Clock.last) (hle : due ≤ target)
    (h : c.fire? s g due = some (due, steps, c')) : c'.window target < c.window target := by
  have hd := (fire?_cases h).1
  simp only [window, hd]
  cases hd' : c'.due with
  | none => simp only; omega
  | some due' => have := (fire?_due h hd').2; simp only; omega

/-- Every step of a channel that does not loop leaves fewer steps, and does not make it loop. -/
theorem remaining_fire?_lt {c c' : Channel} {s : PlaybackSettings} {g : Graph} {now due : Nat}
    {steps : List Step} (hl : c.looping = false) (h : c.fire? s g now = some (due, steps, c')) :
    c'.looping = false ∧ c'.remaining < c.remaining := by
  obtain ⟨hd, -, trace, ht, ⟨i, hi, hp⟩ | ⟨-, hp⟩⟩ := fire?_cases h
  · have hnext : i = c.cursor ∧ c.cursor < c.length := by
      simp only [next?, hl, Bool.false_eq_true, false_and, if_false] at hi
      split at hi
      · cases hi; exact ⟨rfl, ‹_›⟩
      · cases hi
    obtain ⟨rfl, hlt⟩ := hnext
    rw [play_eq] at hp
    obtain ⟨-, rfl⟩ := Prod.mk.inj hp
    refine ⟨hl, ?_⟩
    simp only [remaining, hd, length] at hlt ⊢
    omega
  · obtain ⟨-, rfl⟩ := Prod.mk.inj hp
    refine ⟨hl, ?_⟩
    simp only [remaining, hd]
    omega

end Channel

namespace Timeline

variable {target : Nat} {t u : Timeline} {turns : List Turn}

/-! ## The loop is a beginning of it -/

/-- A turn of the loop is a step of the run without a limit, but for the clock. -/
theorem Coherent.fire_eq_taken (h : t.Coherent) {name : ChannelName} {due : Nat}
    (hd : (t.channel name).due = some due) :
    ∃ steps c, (t.channel name).fire? t.settings t.graph due = some (due, steps, c) ∧
      (t.fire name due).1 = Turn.events ⟨name, due, steps⟩ ∧
      (t.fire name due).2 = (t.taken ⟨name, due, steps⟩ c).atTime (max t.now due) := by
  obtain ⟨htrace, -⟩ := (h name).pending_iff.mp (by rw [hd]; rfl)
  obtain ⟨trace, ht⟩ := Option.isSome_iff_exists.mp htrace
  have hf := Channel.fire?_eq (s := t.settings) (g := t.graph) hd ht (Nat.le_refl due)
  rw [fire_eq hd]
  cases hn : (t.channel name).next? with
  | some i => rw [hn] at hf; rw [hf]; exact ⟨_, _, rfl, rfl, rfl⟩
  | none => rw [hn] at hf; rw [hf]; exact ⟨_, _, rfl, rfl, rfl⟩

/-- The loop of an advance is a beginning of the run without a limit: of the length that its turns
allow, or all of it. -/
theorem runDue_unlimited (h : t.Coherent) (target n : Nat) :
    ∃ turns, Unlimited target t turns ((runDue target n t).2.atTime t.now) ∧
      (runDue target n t).1 = turns.flatMap Turn.events ∧
      (turns.length = n ∨
        (turns.length < n ∧ (runDue target n t).2.hasBacklog target = false)) := by
  induction n generalizing t with
  | zero => exact ⟨[], .start t, rfl, Or.inl rfl⟩
  | succ n ih =>
    rcases backlog_cases t target with hb | ⟨name, due, he, hle⟩
    · rw [runDue_stop hb]
      exact ⟨[], .start t, rfl, Or.inr ⟨Nat.succ_pos n, hb⟩⟩
    have hd := earliest?_due he
    obtain ⟨steps, c, hf, hevents, hstate⟩ := h.fire_eq_taken hd
    obtain ⟨rest, hrun, hrest, hlen⟩ := ih (coherent_fire h hd)
    rw [runDue_step he hle]
    refine ⟨⟨name, due, steps⟩ :: rest, ?_, ?_, ?_⟩
    · refine .turn (earliest?_eq_some_iff.mp he) hle hf ?_
      -- the rest of the loop starts at a later clock, which it does not look at
      have hback := hrun.atTime t.now
      rw [hstate] at hback ⊢
      have hsame : (((t.taken ⟨name, due, steps⟩ c).atTime (max t.now due)).atTime t.now) =
          t.taken ⟨name, due, steps⟩ c := by
        unfold taken
        cases name <;> rfl
      rw [hsame] at hback
      exact hback
    · rw [List.flatMap_cons, hevents, hrest]
    · rw [List.length_cons]
      rcases hlen with heq | ⟨hlt, hb⟩
      · exact Or.inl (by omega)
      · exact Or.inr ⟨by omega, hb⟩

/-- The same advance, called again and again, is one loop with the turns of all the calls. -/
theorem advances_eq (t : Timeline) (target n : Nat) :
    ((t.calls (List.replicate (n + 1) (.advanceTo target))).flatMap (·.2)) =
        (runDue (min target Clock.last) ((n + 1) * maxSteps) t).1 ∧
      t.after (List.replicate (n + 1) (.advanceTo target)) =
        (runDue (min target Clock.last) ((n + 1) * maxSteps) t).2.atTime
          (max t.now (min target Clock.last)) := by
  induction n generalizing t with
  | zero =>
    have h := advanceTo_eq t target
    simp only [List.replicate_one, calls, after, perform, List.flatMap_cons, List.flatMap_nil,
      List.append_nil, Nat.zero_add, Nat.one_mul, h, and_self]
  | succ n ih =>
    obtain ⟨hevents, hstate⟩ := ih (t.advanceTo target).2
    rw [List.replicate_succ]
    simp only [calls, after, perform, List.flatMap_cons, hevents, hstate]
    simp only [advanceTo_eq, atTime_now]
    generalize min target Clock.last = T
    obtain ⟨h1, h2⟩ := runDue_atTime T ((n + 1) * maxSteps) (runDue T maxSteps t).2 (max t.now T)
      (max t.now T)
    have hadd := runDue_add T maxSteps ((n + 1) * maxSteps) t
    rw [show maxSteps + (n + 1) * maxSteps = (n + 1 + 1) * maxSteps by
      rw [Nat.succ_mul (n + 1), Nat.add_comm]] at hadd
    rw [hadd, h1, show max (max t.now T) T = max t.now T by omega, h2]
    exact ⟨rfl, rfl⟩

theorem hasBacklog_runDue (h : t.Coherent) {bound n : Nat}
    (hbound : ∀ turns u, Unlimited target t turns u → turns.length ≤ bound) (hn : bound < n) :
    (runDue target n t).2.hasBacklog target = false := by
  obtain ⟨turns, hrun, -, hlen⟩ := runDue_unlimited h target n
  have := hbound turns _ hrun
  rcases hlen with heq | ⟨-, hb⟩
  · omega
  · exact hb

/-- The run without a limit ends if the clock goes further than the target, or no channel loops. -/
theorem Unlimited.length_bounded (t : Timeline) (target : Nat)
    (hend : target < Clock.last ∨ ∀ n, (t.channel n).looping = false) :
    ∃ bound, ∀ turns u, Unlimited target t turns u → turns.length ≤ bound := by
  rcases hend with hT | hl
  · refine ⟨t.live.window target + t.ghost.window target, ?_⟩
    intro turns u h
    have := h.length_add_le (fun _ => True) (Channel.window target)
      (fun c c' s g due steps _ hle hf => ⟨trivial, Channel.window_fire?_lt hT hle hf⟩)
      (fun _ => trivial)
    omega
  · refine ⟨t.live.remaining + t.ghost.remaining, ?_⟩
    intro turns u h
    have := h.length_add_le (fun c => c.looping = false) Channel.remaining
      (fun c c' s g due steps hc _ hf => Channel.remaining_fire?_lt hc hf) hl
    omega

/-- **The limit of steps only defers.** Take the run that an advance to a target would make without
a limit of steps, from any timeline that a run can reach. Calling the advance again and again
returns the events of the first steps of that run, `maxSteps` for each call or all there are, and
ends where those steps end, with the clock at the target. If the clock goes further than the target,
or if no channel loops, that run ends, and so after some number of calls nothing is due any more. -/
theorem limit_defers (s : PlaybackSettings) (a : AudioSettings) (k : Sink) (ops : List Operation)
    (target : UInt64) :
    let t := (new s a k).after ops
    let again (n : Nat) := List.replicate n (Operation.advanceTo target.toNat)
    (∀ n, 1 ≤ n → ∃ turns u, Unlimited target.toNat t turns u ∧
        (turns.length : ℕ∞) = min ((n * maxSteps : Nat) : ℕ∞) (t.unlimitedLength target.toNat) ∧
        (t.calls (again n)).flatMap (·.2) = turns.flatMap Turn.events ∧
        t.after (again n) = u.atTime (max t.now target.toNat)) ∧
      (target.toNat < Clock.last ∨ (∀ c, (t.channel c).looping = false) →
        t.unlimitedLength target.toNat ≠ ⊤ ∧
          ∃ enough, ∀ n, enough ≤ n → (t.after (again n)).hasBacklog target.toNat = false) := by
  intro t again
  have ht : t.Coherent := (coherent_new s a k).after ops
  have hfit : min target.toNat Clock.last = target.toNat :=
    Nat.min_eq_left (Nat.le_of_lt_succ target.toNat_lt)
  have hadvances (n : Nat) := advances_eq t target.toNat n
  simp only [hfit] at hadvances
  refine ⟨?_, ?_⟩
  · intro n hn
    obtain ⟨n, rfl⟩ : ∃ m, n = m + 1 := ⟨n - 1, by omega⟩
    obtain ⟨hevents, hstate⟩ := hadvances n
    obtain ⟨turns, hrun, hturns, hlen⟩ :=
      runDue_unlimited ht target.toNat ((n + 1) * maxSteps)
    refine ⟨turns, _, hrun, ?_, hevents.trans hturns, hstate⟩
    rcases hlen with heq | ⟨hlt, hb⟩
    · rw [← heq, min_eq_left hrun.length_le]
    · rw [hrun.length_eq hb, min_eq_right (Nat.cast_le.mpr (Nat.le_of_lt hlt))]
  · intro hend
    obtain ⟨bound, hbound⟩ := Unlimited.length_bounded t target.toNat hend
    refine ⟨?_, bound + 1, ?_⟩
    · have hle : t.unlimitedLength target.toNat ≤ (bound : ℕ∞) := by
        refine sSup_le ?_
        rintro _ ⟨turns, u, h, rfl⟩
        exact Nat.cast_le.mpr (hbound turns u h)
      exact ne_top_of_le_ne_top (ENat.natCast_ne_top bound) hle
    · intro n hn
      obtain ⟨n, rfl⟩ : ∃ m, n = m + 1 := ⟨n - 1, by omega⟩
      rw [(hadvances n).2, atTime_hasBacklog]
      refine hasBacklog_runDue ht hbound ?_
      exact Nat.lt_of_lt_of_le hn (Nat.le_mul_of_pos_right (n + 1) (by decide))

/-- A trace of one entry that loops without a delay takes a step each millisecond, and so only some
up to a target. -/
theorem spinning_ends :
    let spinning := (new { liveStepMs := 0, loopLive := true } {} .silent).after
      [.setGraph .pair, .bind .live (some (.live ⟨#[1]⟩))]
    (1000000 : UInt64).toNat < Clock.last ∧ spinning.unlimitedLength (1000000 : UInt64).toNat ≠ ⊤ :=
  ⟨by decide, ((limit_defers { liveStepMs := 0, loopLive := true } {} .silent
    [.setGraph .pair, .bind .live (some (.live ⟨#[1]⟩))] 1000000).2 (Or.inl (by decide))).1⟩

end Timeline
end TracePlayback
