import TracePlayback.Proofs.Playback.Loop

/-!
# Runs of a timeline

A timeline is only changed by its operations. A run is a list of them: `calls` pairs each with the
events it returns, `after` is the timeline it ends at.

Every operation is an edit that runs nothing, followed, for most of them, by an advance to some
target (`perform_eq`). So what holds after a call, or after every run, follows from what the edits
keep and what one turn of the loop keeps (`perform_accumulates`, `after_invariant`).
-/
namespace TracePlayback

inductive Operation where
  | setGraph (g : Graph)
  | bind (name : ChannelName) (trace : Option Trace)
  | setLooping (name : ChannelName) (looping : Bool)
  | setAudio (audio : AudioSettings)
  | setSink (sink : Sink)
  | advanceBy (ms : Nat)
  | advanceTo (target : Nat)

namespace Timeline

def perform (t : Timeline) : Operation → List Event × Timeline
  | .setGraph g => t.setGraph g
  | .bind name trace => t.bind name trace
  | .setLooping name looping => ([], t.setLooping name looping)
  | .setAudio audio => ([], t.setAudio audio)
  | .setSink sink => ([], t.setSink sink)
  | .advanceBy ms => t.advanceBy ms
  | .advanceTo target => t.advanceTo target

def after (t : Timeline) : List Operation → Timeline
  | [] => t
  | op :: ops => (t.perform op).2.after ops

/-- The calls of a run, each with the events it returns. -/
def calls (t : Timeline) : List Operation → List (Operation × List Event)
  | [] => []
  | op :: ops => (op, (t.perform op).1) :: (t.perform op).2.calls ops

theorem after_concat (t : Timeline) (ops : List Operation) (op : Operation) :
    t.after (ops ++ [op]) = ((t.after ops).perform op).2 := by
  induction ops generalizing t with
  | nil => rfl
  | cons first ops ih => exact ih _

/-! ## An edit, then an advance -/

/-- All channels started over on a graph. -/
def renewed (t : Timeline) (g : Graph) : Timeline :=
  let renew (c : Channel) := if c.trace.isSome then c.restart t.now else c.cancel
  { t with graph := g, live := renew t.live, ghost := renew t.ghost }

/-- What an operation changes before anything runs. -/
def edit (t : Timeline) : Operation → Timeline
  | .setGraph g => t.renewed g
  | .bind name trace => t.setChannel name ((t.channel name).bind trace t.now)
  | .setLooping name looping => t.setLooping name looping
  | .setAudio audio => t.setAudio audio
  | .setSink sink => t.setSink sink
  | .advanceBy _ => t
  | .advanceTo _ => t

/-- How far an operation advances the timeline, if it does. -/
def target? (t : Timeline) : Operation → Option Nat
  | .setGraph _ => some t.now
  | .bind _ _ => some t.now
  | .setLooping _ _ => none
  | .setAudio _ => none
  | .setSink _ => none
  | .advanceBy ms => some (Clock.after t.now ms)
  | .advanceTo target => some target

theorem perform_eq (t : Timeline) (op : Operation) :
    t.perform op =
      match t.target? op with
      | some target => (t.edit op).advanceTo target
      | none => ([], t.edit op) := by
  cases op with
  | bind name trace => cases name <;> rfl
  | _ => rfl

theorem edit_now (t : Timeline) (op : Operation) : (t.edit op).now = t.now := by
  cases op with
  | bind name trace => exact setChannel_now t name _
  | setLooping name looping => exact setChannel_now t name _
  | _ => rfl

theorem renewed_channel (t : Timeline) (g : Graph) (n : ChannelName) :
    (t.renewed g).channel n =
      if (t.channel n).trace.isSome then (t.channel n).restart t.now else (t.channel n).cancel := by
  cases n <;> rfl

/-- After an edit, a step that is pending was pending before, or it is due at once and the operation
runs what is due at once. -/
theorem edit_pending {t : Timeline} {op : Operation} {n : ChannelName} {due : Nat}
    (h : ((t.edit op).channel n).due = some due) :
    (t.channel n).due = some due ∨ (due = t.now ∧ t.target? op = some t.now) := by
  cases op with
  | setGraph g =>
    simp only [edit, renewed_channel] at h
    split at h
    · simp only [Channel.restart, Option.map_eq_some_iff] at h
      obtain ⟨-, -, rfl⟩ := h
      exact Or.inr ⟨rfl, rfl⟩
    · cases h
  | bind name trace =>
    simp only [edit, channel_setChannel] at h
    split at h
    · simp only [Channel.bind, Channel.restart, Option.map_eq_some_iff] at h
      obtain ⟨-, -, rfl⟩ := h
      exact Or.inr ⟨rfl, rfl⟩
    · exact Or.inl h
  | setLooping name looping =>
    simp only [edit, setLooping, channel_setChannel] at h
    split at h
    · rename_i hn; subst hn; exact Or.inl h
    · exact Or.inl h
  | setAudio audio => cases n <;> exact Or.inl h
  | setSink sink => cases n <;> exact Or.inl h
  | advanceBy ms => exact Or.inl h
  | advanceTo target => exact Or.inl h

theorem perform_now (t : Timeline) (op : Operation) :
    (t.perform op).2.now =
      match t.target? op with
      | some target => max t.now (min target Clock.last)
      | none => t.now := by
  rw [perform_eq]
  cases t.target? op with
  | none => exact edit_now t op
  | some target => simp only [advanceTo_eq, atTime_now, edit_now]

theorem le_now_after (t : Timeline) (ops : List Operation) : t.now ≤ (t.after ops).now := by
  induction ops generalizing t with
  | nil => exact Nat.le_refl _
  | cons op ops ih =>
    have hstep : t.now ≤ (t.perform op).2.now := by
      rw [perform_now]
      split
      · exact Nat.le_max_left _ _
      · exact Nat.le_refl _
    exact Nat.le_trans hstep (ih _)

/-- What an edit has left, and every turn of the loop and every move of the clock keeps, together
with what has been shown so far, a call leaves. -/
theorem perform_accumulates {P : List Event → Timeline → Prop}
    (hfire : ∀ shown t name due, P shown t → t.earliest? = some (name, due) → due ≤ Clock.last →
      P (shown ++ (t.fire name due).1) (t.fire name due).2)
    (hclock : ∀ shown t target, P shown t → target ≤ Clock.last →
      P shown (t.atTime (max t.now target)))
    {t : Timeline} {op : Operation} (shown : List Event) (h : P shown (t.edit op)) :
    P (shown ++ (t.perform op).1) (t.perform op).2 := by
  rw [perform_eq]
  cases t.target? op with
  | none => simpa using h
  | some target =>
    have hT := Nat.min_le_right target Clock.last
    refine hclock _ _ _ (runDue_accumulates _ ?_ maxSteps _ _ h) hT
    intro shown u name due hu he hle
    exact hfire shown u name due hu he (Nat.le_trans hle hT)

/-- What an edit has left and every turn of the loop and every move of the clock keeps, a call
leaves. -/
theorem perform_invariant {P : Timeline → Prop}
    (hfire : ∀ t name due, P t → t.earliest? = some (name, due) → due ≤ Clock.last →
      P (t.fire name due).2)
    (hclock : ∀ t target, P t → target ≤ Clock.last → P (t.atTime (max t.now target)))
    {t : Timeline} {op : Operation} (h : P (t.edit op)) : P (t.perform op).2 :=
  perform_accumulates (P := fun _ => P) (fun _ => hfire) (fun _ => hclock) [] h

/-- What every edit keeps, every turn of the loop keeps and every move of the clock keeps, holds
after every run. -/
theorem after_invariant {P : Timeline → Prop} (hedit : ∀ t op, P t → P (t.edit op))
    (hfire : ∀ t name due, P t → t.earliest? = some (name, due) → due ≤ Clock.last →
      P (t.fire name due).2)
    (hclock : ∀ t target, P t → target ≤ Clock.last → P (t.atTime (max t.now target))) :
    ∀ (ops : List Operation) (t : Timeline), P t → P (t.after ops) := by
  intro ops
  induction ops with
  | nil => intro t h; exact h
  | cons op ops ih =>
    intro t h
    exact ih _ (perform_invariant hfire hclock (hedit t op h))

/-! ## What calls leave alone -/

theorem edit_graph (t : Timeline) (op : Operation) :
    (t.edit op).graph = match op with
      | .setGraph g => g
      | _ => t.graph := by
  cases op with
  | bind name trace => exact setChannel_graph t name _
  | setLooping name looping => exact setChannel_graph t name _
  | _ => rfl

theorem perform_graph (t : Timeline) (op : Operation) :
    (t.perform op).2.graph = (t.edit op).graph := by
  refine perform_invariant (P := fun u => u.graph = (t.edit op).graph) ?_ (fun _ _ h _ => h) rfl
  intro u name due hu he _
  rw [(fire_frame (earliest?_due he)).2.1, hu]

theorem advanceTo_graph (t : Timeline) (target : Nat) : (t.advanceTo target).2.graph = t.graph :=
  t.perform_graph (.advanceTo target)

theorem edit_settings (t : Timeline) (op : Operation) : (t.edit op).settings = t.settings := by
  cases op with
  | bind name trace => exact setChannel_settings t name _
  | setLooping name looping => exact setChannel_settings t name _
  | _ => rfl

theorem perform_settings (t : Timeline) (op : Operation) :
    (t.perform op).2.settings = t.settings := by
  refine perform_invariant (P := fun u => u.settings = t.settings) ?_ (fun _ _ h _ => h)
    (t.edit_settings op)
  intro u name due hu he _
  rw [(fire_frame (earliest?_due he)).2.2.1, hu]

theorem perform_now_self {t : Timeline} (op : Operation)
    (h : ∀ target, t.target? op = some target → target ≤ t.now) : (t.perform op).2.now = t.now := by
  rw [perform_now]
  cases ht : t.target? op with
  | none => rfl
  | some target =>
    have := h target ht
    simp only
    omega

/-! ## Calls that leave something due -/

/-- A call stops short if it leaves a step due that it was to run: it has run `maxSteps` steps, and
there were more. -/
def stopsShort (t : Timeline) (op : Operation) : Bool :=
  (t.target? op).any fun target => (t.perform op).2.hasBacklog (min target Clock.last)

/-- No call of a run stops short. -/
def keepsUp (t : Timeline) : List Operation → Bool
  | [] => true
  | op :: ops => !t.stopsShort op && (t.perform op).2.keepsUp ops

/-- The clock can show its time, and nothing is due at it. -/
def CaughtUp (t : Timeline) : Prop := t.now ≤ Clock.last ∧ t.hasBacklog t.now = false

theorem caughtUp_new (s : PlaybackSettings) (a : AudioSettings) (k : Sink) :
    (new s a k).CaughtUp :=
  ⟨Nat.zero_le _, rfl⟩

theorem edit_due {t : Timeline} {op : Operation} (h : t.target? op = none) (n : ChannelName) :
    ((t.edit op).channel n).due = (t.channel n).due := by
  cases op with
  | setLooping name looping =>
    change ((t.setChannel name _).channel n).due = _
    rw [channel_setChannel]
    split
    · rename_i hn; subst hn; rfl
    · rfl
  | setAudio audio => cases n <;> rfl
  | setSink sink => cases n <;> rfl
  | setGraph g => cases h
  | bind name trace => cases h
  | advanceBy ms => cases h
  | advanceTo target => cases h

/-- Only an advance to a time in the past has a target before the clock, and that edits nothing. -/
theorem edit_of_target_lt {t : Timeline} {op : Operation} {target : Nat} (hn : t.now ≤ Clock.last)
    (h : t.target? op = some target) (hlt : min target Clock.last < t.now) : t.edit op = t := by
  cases op with
  | setGraph g => simp only [target?, Option.some.injEq] at h; omega
  | bind name trace => simp only [target?, Option.some.injEq] at h; omega
  | advanceBy ms => rfl
  | advanceTo target => rfl
  | setLooping name looping => cases h
  | setAudio audio => cases h
  | setSink sink => cases h

/-- A call that does not stop short leaves a timeline caught up. -/
theorem caughtUp_perform {t : Timeline} {op : Operation} (h : t.CaughtUp)
    (hs : t.stopsShort op = false) : (t.perform op).2.CaughtUp := by
  obtain ⟨hn, hb⟩ := h
  cases ht : t.target? op with
  | none =>
    rw [perform_eq, ht]
    refine ⟨by rw [edit_now]; exact hn, ?_⟩
    rw [edit_now]
    rw [hasBacklog_eq_false_iff] at hb ⊢
    intro n d hd
    rw [edit_due ht] at hd
    exact hb n d hd
  | some target =>
    simp only [stopsShort, ht, Option.any_some] at hs
    have hT := Nat.min_le_right target Clock.last
    rcases Nat.lt_or_ge (min target Clock.last) t.now with hlt | hle
    · have hb' := hasBacklog_mono (Nat.le_of_lt hlt) hb
      rw [perform_eq, ht]
      simp only [edit_of_target_lt hn ht hlt, advanceTo_eq, runDue_stop hb',
        Nat.max_eq_left (Nat.le_of_lt hlt)]
      exact ⟨hn, hb⟩
    · have hnow : (t.perform op).2.now = min target Clock.last := by
        rw [perform_eq, ht]
        simp only [advanceTo_eq, atTime_now, edit_now]
        omega
      exact ⟨by rw [hnow]; exact hT, by rw [hnow]; exact hs⟩

end Timeline
end TracePlayback
