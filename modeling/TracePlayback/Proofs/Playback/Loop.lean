import TracePlayback.Playback.Timeline
import TracePlayback.Proofs.Playback.Step

/-!
# The loop that runs what is due

`Timeline.advanceTo` runs the earliest pending step as long as it is due by the target, up to
`maxSteps` times, and then moves the clock. This file gives the loop its equations.

* `fire_eq`: one turn of the loop changes one channel, the clock and the sink, nothing else.
* `runDue_stop`, `runDue_step`: the two ways a turn can go; `backlog_cases` says there is no third.
* `runDue_accumulates`, `runDue_invariant`: what every turn keeps, the whole loop keeps, with or
  without what it shows.
* `runDue_atTime`, `advanceTo_eq`: the clock a loop starts at does not matter to what it runs.
* `runDue_add`, `runDue_more`, `runDue_split`: turns can be counted in parts, turns beyond the last
  one do nothing, and a loop that gets to its target can be interrupted anywhere on the way.
-/
namespace TracePlayback

/-- The tone of a step: visits have one. -/
def Step.tone? : Step → Option Tone
  | .visit _ kind _ => some (.ofKind kind)
  | _ => none

namespace Timeline

/-! ## Parts of a timeline -/

theorem channel_setChannel (t : Timeline) (name n : ChannelName) (c : Channel) :
    (t.setChannel name c).channel n = if n = name then c else t.channel n := by
  cases name <;> cases n <;> rfl

@[simp]
theorem channel_setChannel_self (t : Timeline) (name : ChannelName) (c : Channel) :
    (t.setChannel name c).channel name = c := by
  rw [channel_setChannel, if_pos rfl]

theorem channel_setChannel_of_ne (t : Timeline) {name n : ChannelName} (c : Channel)
    (h : n ≠ name) : (t.setChannel name c).channel n = t.channel n := by
  rw [channel_setChannel, if_neg h]

@[simp]
theorem setChannel_now (t : Timeline) (name : ChannelName) (c : Channel) :
    (t.setChannel name c).now = t.now := by cases name <;> rfl

@[simp]
theorem setChannel_graph (t : Timeline) (name : ChannelName) (c : Channel) :
    (t.setChannel name c).graph = t.graph := by cases name <;> rfl

@[simp]
theorem setChannel_settings (t : Timeline) (name : ChannelName) (c : Channel) :
    (t.setChannel name c).settings = t.settings := by cases name <;> rfl

def atTime (t : Timeline) (now : Nat) : Timeline := { t with now := now }

@[simp]
theorem atTime_channel (t : Timeline) (now : Nat) (n : ChannelName) :
    (t.atTime now).channel n = t.channel n := by cases n <;> rfl

@[simp]
theorem atTime_now (t : Timeline) (now : Nat) : (t.atTime now).now = now := rfl

@[simp]
theorem atTime_hasBacklog (t : Timeline) (now target : Nat) :
    (t.atTime now).hasBacklog target = t.hasBacklog target := rfl

/-! ## The earliest step -/

theorem earliest?_due {t : Timeline} {name : ChannelName} {due : Nat}
    (h : t.earliest? = some (name, due)) : (t.channel name).due = some due := by
  unfold earliest? at h
  split at h
  · rename_i a b ha hb
    split at h <;> cases h
    · exact ha
    · exact hb
  · rename_i a ha hb; cases h; exact ha
  · rename_i b ha hb; cases h; exact hb
  · cases h

theorem earliest?_le {t : Timeline} {name : ChannelName} {due : Nat}
    (h : t.earliest? = some (name, due)) (n : ChannelName) {d : Nat}
    (hd : (t.channel n).due = some d) : due ≤ d := by
  have hmin : (∀ a, t.live.due = some a → due ≤ a) ∧ ∀ b, t.ghost.due = some b → due ≤ b := by
    unfold earliest? at h
    split at h
    · rename_i a b ha hb
      simp only [ha, hb, Option.some.injEq, forall_eq']
      split at h <;> cases h <;> omega
    · rename_i a ha hb
      cases h
      simp [ha, hb]
    · rename_i b ha hb
      cases h
      simp [ha, hb]
    · cases h
  cases n with
  | live => exact hmin.1 d hd
  | ghost => exact hmin.2 d hd

theorem earliest?_none {t : Timeline} (h : t.earliest? = none) (n : ChannelName) :
    (t.channel n).due = none := by
  unfold earliest? at h
  split at h
  · split at h <;> cases h
  · cases h
  · cases h
  · rename_i ha hb; cases n
    · exact ha
    · exact hb

theorem hasBacklog_eq_false_iff {t : Timeline} {target : Nat} :
    t.hasBacklog target = false ↔ ∀ n d, (t.channel n).due = some d → target < d := by
  unfold hasBacklog nextDeadline?
  cases he : t.earliest? with
  | none => simp [earliest?_none he]
  | some p =>
    obtain ⟨name, due⟩ := p
    simp only [Option.map_some, Option.any_some, decide_eq_false_iff_not, Nat.not_le]
    constructor
    · intro h n d hd
      exact Nat.lt_of_lt_of_le h (earliest?_le he n hd)
    · intro h
      exact h name due (earliest?_due he)

/-- Either nothing is due by the target, or the earliest step is. -/
theorem backlog_cases (t : Timeline) (target : Nat) :
    t.hasBacklog target = false ∨ ∃ name due, t.earliest? = some (name, due) ∧ due ≤ target := by
  unfold hasBacklog nextDeadline?
  cases he : t.earliest? with
  | none => exact Or.inl rfl
  | some p =>
    rcases Nat.lt_or_ge target p.2 with hlt | hle
    · left; simpa using hlt
    · exact Or.inr ⟨p.1, p.2, rfl, hle⟩

theorem hasBacklog_mono {t : Timeline} {a b : Nat} (h : a ≤ b) (hb : t.hasBacklog b = false) :
    t.hasBacklog a = false := by
  rw [hasBacklog_eq_false_iff] at hb ⊢
  intro n d hd
  exact Nat.lt_of_le_of_lt h (hb n d hd)

/-! ## One turn -/

/-- The sink after some steps have been shown. -/
def sinkAfter (t : Timeline) (steps : List Step) : Sink :=
  if t.audio.enabled then (steps.filterMap Step.tone?).foldl Sink.trigger t.sink else t.sink

theorem foldl_sound_eq (steps : List Step) (t : Timeline) :
    steps.foldl sound t = { t with sink := t.sinkAfter steps } := by
  induction steps generalizing t with
  | nil => simp [sinkAfter]
  | cons step rest ih =>
    rw [List.foldl_cons, ih]
    cases step with
    | visit node kind revisit =>
      simp only [sound, sinkAfter, Step.tone?, List.filterMap_cons]
      split
      · simp
      · simp
    | traverse source target linked => rfl
    | finished => rfl

/-- One turn of the loop: the channel that is due takes its step, the clock reaches the time of the
step, and its visits sound. -/
theorem fire_eq {t : Timeline} {name : ChannelName} {due : Nat}
    (hd : (t.channel name).due = some due) :
    t.fire name due =
      match (t.channel name).fire? t.settings t.graph due with
      | none => ([], t.atTime (max t.now due))
      | some (_, steps, c) =>
        (steps.map fun step => ⟨name, due, step⟩,
          { (t.setChannel name c).atTime (max t.now due) with sink := t.sinkAfter steps }) := by
  have hf := Channel.fire?_of_due_le t.settings t.graph hd (Nat.le_max_right t.now due)
  have hc : ({ t with now := max t.now due } : Timeline).channel name = t.channel name :=
    atTime_channel t _ name
  unfold fire
  simp only [hc, hf]
  cases h : (t.channel name).fire? t.settings t.graph due with
  | none => rfl
  | some r =>
    obtain ⟨time, steps, c⟩ := r
    have ht : time = due := by
      have := (Channel.fire?_cases h).1
      rw [hd] at this; exact (Option.some.inj this).symm
    subst ht
    simp only [foldl_sound_eq]
    cases name <;> rfl

/-- A turn leaves the graph, the settings and the other channel alone, and the clock passes the time
of the step. -/
theorem fire_frame {t : Timeline} {name : ChannelName} {due : Nat}
    (hd : (t.channel name).due = some due) :
    (t.fire name due).2.now = max t.now due ∧ (t.fire name due).2.graph = t.graph ∧
      (t.fire name due).2.settings = t.settings ∧
      ∀ n ≠ name, (t.fire name due).2.channel n = t.channel n := by
  rw [fire_eq hd]
  split
  · exact ⟨rfl, rfl, rfl, fun n _ => atTime_channel t _ n⟩
  · rename_i time steps c _
    refine ⟨rfl, setChannel_graph t name c, setChannel_settings t name c, ?_⟩
    intro n hn
    have hc := channel_setChannel_of_ne t c hn
    cases n <;> exact hc

/-- The channel whose turn it is, after its step. -/
theorem fire_channel {t : Timeline} {name : ChannelName} {due : Nat}
    (hd : (t.channel name).due = some due) :
    (t.fire name due).2.channel name =
      match (t.channel name).fire? t.settings t.graph due with
      | none => t.channel name
      | some (_, _, c) => c := by
  rw [fire_eq hd]
  cases (t.channel name).fire? t.settings t.graph due with
  | none => exact atTime_channel t _ name
  | some r => cases name <;> rfl

theorem fire_atTime {t : Timeline} {name : ChannelName} {due : Nat}
    (hd : (t.channel name).due = some due) (now : Nat) :
    (t.atTime now).fire name due =
      ((t.fire name due).1, (t.fire name due).2.atTime (max now due)) := by
  have hd' : ((t.atTime now).channel name).due = some due := by rw [atTime_channel]; exact hd
  rw [fire_eq hd, fire_eq hd', atTime_channel]
  simp only [atTime]
  cases (t.channel name).fire? t.settings t.graph due with
  | none => rfl
  | some r => cases name <;> rfl

/-! ## The whole loop -/

theorem runDue_stop {t : Timeline} {target : Nat} (h : t.hasBacklog target = false) (n : Nat) :
    runDue target n t = ([], t) := by
  cases n with
  | zero => rfl
  | succ n =>
    unfold runDue
    cases he : t.earliest? with
    | none => rfl
    | some p =>
      obtain ⟨name, due⟩ := p
      have := hasBacklog_eq_false_iff.mp h name due (earliest?_due he)
      simp only [if_pos this]

theorem runDue_step {t : Timeline} {target : Nat} {name : ChannelName} {due : Nat}
    (he : t.earliest? = some (name, due)) (hle : due ≤ target) (n : Nat) :
    runDue target (n + 1) t =
      ((t.fire name due).1 ++ (runDue target n (t.fire name due).2).1,
        (runDue target n (t.fire name due).2).2) := by
  rw [runDue, he]
  simp only [if_neg (Nat.not_lt.mpr hle)]

/-- What every turn keeps, together with what has been shown so far, the loop keeps. -/
theorem runDue_accumulates {P : List Event → Timeline → Prop} (target : Nat)
    (hstep : ∀ shown t name due, P shown t → t.earliest? = some (name, due) → due ≤ target →
      P (shown ++ (t.fire name due).1) (t.fire name due).2) :
    ∀ (n : Nat) (t : Timeline) (shown : List Event), P shown t →
      P (shown ++ (runDue target n t).1) (runDue target n t).2 := by
  intro n
  induction n with
  | zero => intro t shown h; simpa [runDue] using h
  | succ n ih =>
    intro t shown h
    rcases backlog_cases t target with hb | ⟨name, due, he, hle⟩
    · rw [runDue_stop hb]
      simpa using h
    · rw [runDue_step he hle, ← List.append_assoc]
      exact ih _ _ (hstep shown t name due h he hle)

/-- What every turn keeps, the loop keeps. -/
theorem runDue_invariant {P : Timeline → Prop} (target : Nat)
    (hstep : ∀ t name due, P t → t.earliest? = some (name, due) → due ≤ target →
      P (t.fire name due).2) (n : Nat) (t : Timeline) (h : P t) : P (runDue target n t).2 :=
  runDue_accumulates (P := fun _ => P) target (fun _ => hstep) n t [] h

theorem le_now_runDue (target n : Nat) (t : Timeline) : t.now ≤ (runDue target n t).2.now := by
  refine runDue_invariant (P := fun u => t.now ≤ u.now) target ?_ n t (Nat.le_refl _)
  intro u name due h he _
  rw [(fire_frame (earliest?_due he)).1]
  exact Nat.le_trans h (Nat.le_max_left _ _)

theorem now_runDue_le (target n : Nat) (t : Timeline) :
    (runDue target n t).2.now ≤ max t.now target := by
  refine runDue_invariant (P := fun u => u.now ≤ max t.now target) target ?_ n t
    (Nat.le_max_left _ _)
  intro u name due h he hle
  rw [(fire_frame (earliest?_due he)).1]
  omega

/-- The clock a loop starts at does not matter to what it runs. -/
theorem runDue_atTime (target n : Nat) (t : Timeline) (now later : Nat) :
    (runDue target n (t.atTime now)).1 = (runDue target n t).1 ∧
      (runDue target n (t.atTime now)).2.atTime later = (runDue target n t).2.atTime later := by
  induction n generalizing t now with
  | zero => exact ⟨rfl, rfl⟩
  | succ n ih =>
    rcases backlog_cases t target with hb | ⟨name, due, he, hle⟩
    · rw [runDue_stop hb, runDue_stop (t := t.atTime now) hb]
      exact ⟨rfl, rfl⟩
    · rw [runDue_step he hle, runDue_step (t := t.atTime now) he hle,
        fire_atTime (earliest?_due he)]
      obtain ⟨h1, h2⟩ := ih (t.fire name due).2 (max now due)
      exact ⟨congrArg ((t.fire name due).1 ++ ·) h1, h2⟩

/-- An advance is the loop, and then the clock. -/
theorem advanceTo_eq (t : Timeline) (target : Nat) :
    t.advanceTo target =
      ((runDue (min target Clock.last) maxSteps t).1,
        (runDue (min target Clock.last) maxSteps t).2.atTime
          (max t.now (min target Clock.last))) := by
  have h1 := le_now_runDue (min target Clock.last) maxSteps t
  have h2 := now_runDue_le (min target Clock.last) maxSteps t
  unfold advanceTo
  simp only [atTime]
  congr 2
  omega

/-! ## More turns, and turns in two parts -/

/-- Turns can be counted in two parts. -/
theorem runDue_add (target n m : Nat) (t : Timeline) :
    runDue target (n + m) t =
      ((runDue target n t).1 ++ (runDue target m (runDue target n t).2).1,
        (runDue target m (runDue target n t).2).2) := by
  induction n generalizing t with
  | zero => rw [Nat.zero_add]; rfl
  | succ n ih =>
    rcases backlog_cases t target with hb | ⟨name, due, he, hle⟩
    · rw [runDue_stop hb, runDue_stop hb, runDue_stop hb]; rfl
    · rw [Nat.succ_add, runDue_step he hle, runDue_step he hle, ih]
      simp only [List.append_assoc]

theorem runDue_more {target n m : Nat} {t : Timeline}
    (h : (runDue target n t).2.hasBacklog target = false) (hnm : n ≤ m) :
    runDue target m t = runDue target n t := by
  induction n generalizing t m with
  | zero => exact runDue_stop h m
  | succ n ih =>
    obtain ⟨m, rfl⟩ : ∃ k, m = k + 1 := ⟨m - 1, by omega⟩
    rcases backlog_cases t target with hb | ⟨name, due, he, hle⟩
    · rw [runDue_stop hb, runDue_stop hb]
    · rw [runDue_step he hle] at h
      rw [runDue_step he hle, runDue_step he hle, ih h (by omega)]

/-- A loop that leaves nothing due by its target can be interrupted at any earlier target: the two
parts run the same steps in the same order. -/
theorem runDue_split {mid target n : Nat} {t : Timeline} (hmt : mid ≤ target)
    (h : (runDue target n t).2.hasBacklog target = false) :
    runDue target n t =
      ((runDue mid n t).1 ++ (runDue target n (runDue mid n t).2).1,
        (runDue target n (runDue mid n t).2).2) := by
  induction n generalizing t with
  | zero => rfl
  | succ n ih =>
    rcases backlog_cases t mid with hb | ⟨name, due, he, hle⟩
    · rw [runDue_stop hb (n + 1)]; rfl
    · have het := Nat.le_trans hle hmt
      rw [runDue_step he het] at h ⊢
      rw [runDue_step he hle]
      have hs := ih h
      -- the second part has one turn more than it needs
      have hmore : runDue target (n + 1) (runDue mid n (t.fire name due).2).2 =
          runDue target n (runDue mid n (t.fire name due).2).2 := by
        refine runDue_more ?_ (Nat.le_succ n)
        rw [hs] at h; exact h
      rw [hmore, hs]
      simp only [List.append_assoc]

end Timeline
end TracePlayback
