import TracePlayback.Proofs.Playback.Operation

/-!
# Events come in order

A call that stops short leaves steps behind that are run later and stamped with a time before the
clock, while a new trace or graph is started at the clock. Events still come in order over a whole
run, whatever the targets are.

The order is that of `InOrder`: by time, and live before ghost at the same time. The invariant is
`Since`: the clock has reached a moment, and nothing is pending before it. `Since.fire` moves it on
to the moment of the step that runs; `Since.runDue` and `Since.perform` follow it through the loop
and through a call, `Since.calls` through a run.

* `events_in_order`: times never decrease over a run, a single call returns its events in order,
  none of them after the clock, and the clock only moves forward.
-/
namespace TracePlayback

/-! ## The order of moments -/

/-- The order of two moments, each a time on a channel: by time, and live before ghost at the same
time. -/
def InOrder (a b : ChannelName × Nat) : Prop :=
  a.2 < b.2 ∨ (a.2 = b.2 ∧ (a.1 = .live ∨ b.1 = .ghost))

instance (a b : ChannelName × Nat) : Decidable (InOrder a b) :=
  inferInstanceAs (Decidable (_ ∨ _))

theorem InOrder.refl (a : ChannelName × Nat) : InOrder a a := by
  obtain ⟨name, time⟩ := a
  cases name <;> simp [InOrder]

theorem InOrder.le {a b : ChannelName × Nat} (h : InOrder a b) : a.2 ≤ b.2 := by
  rcases h with hlt | ⟨heq, -⟩
  · exact Nat.le_of_lt hlt
  · exact Nat.le_of_eq heq

theorem InOrder.trans {a b c : ChannelName × Nat} (hab : InOrder a b) (hbc : InOrder b c) :
    InOrder a c := by
  have h1 := hab.le
  have h2 := hbc.le
  rcases Nat.lt_or_ge a.2 c.2 with hlt | hge
  · exact Or.inl hlt
  · refine Or.inr ⟨by omega, ?_⟩
    rcases hab with hlt | ⟨-, ha | hb⟩
    · omega
    · exact Or.inl ha
    · rcases hbc with hlt | ⟨-, hb' | hc⟩
      · omega
      · rw [hb] at hb'; cases hb'
      · exact Or.inr hc

theorem InOrder.antisymm {a b : ChannelName × Nat} (hab : InOrder a b) (hba : InOrder b a) :
    a = b := by
  obtain ⟨n, time⟩ := a
  obtain ⟨n', time'⟩ := b
  have h1 := hab.le
  have h2 := hba.le
  simp only at h1 h2
  obtain rfl : time = time' := by omega
  cases n <;> cases n' <;> simp [InOrder] at hab hba ⊢

theorem InOrder.of_live {time : Nat} {b : ChannelName × Nat} (h : time ≤ b.2) :
    InOrder (.live, time) b := by
  rcases Nat.lt_or_eq_of_le h with hlt | heq
  · exact Or.inl hlt
  · exact Or.inr ⟨heq, Or.inl rfl⟩

theorem InOrder.of_le {name : ChannelName} {a b : Nat} (h : a ≤ b) :
    InOrder (name, a) (name, b) := by
  rcases Nat.lt_or_eq_of_le h with hlt | rfl
  · exact Or.inl hlt
  · exact .refl _

def Event.moment (e : Event) : ChannelName × Nat := (e.channel, e.time)

namespace Timeline

/-! ## Which step is the earliest -/

/-- The step of a channel is pending, and no pending step comes before it. -/
def DueFirst (t : Timeline) (name : ChannelName) (due : Nat) : Prop :=
  (t.channel name).due = some due ∧
    ∀ n d, (t.channel n).due = some d → InOrder (name, due) (n, d)

theorem dueFirst_of_earliest? {t : Timeline} {name : ChannelName} {due : Nat}
    (h : t.earliest? = some (name, due)) : t.DueFirst name due := by
  refine ⟨earliest?_due h, ?_⟩
  intro n d hd
  have hle := earliest?_le h n hd
  cases name with
  | live => exact .of_live hle
  | ghost =>
    cases n with
    | ghost => exact .of_le hle
    | live =>
      -- the live step comes first when both are due, so it is due later here
      have hlive : t.live.due = some d := hd
      have hghost : t.ghost.due = some due := earliest?_due h
      simp only [earliest?, hlive, hghost] at h
      split at h
      · cases h
      · left; simp only; omega

theorem earliest?_eq_some_iff {t : Timeline} {name : ChannelName} {due : Nat} :
    t.earliest? = some (name, due) ↔ t.DueFirst name due := by
  refine ⟨dueFirst_of_earliest?, ?_⟩
  rintro ⟨hd, hfirst⟩
  cases he : t.earliest? with
  | none => rw [earliest?_none he name] at hd; cases hd
  | some p =>
    obtain ⟨hd', hfirst'⟩ := dueFirst_of_earliest? he
    exact congrArg some (InOrder.antisymm (hfirst' name due hd) (hfirst p.1 p.2 hd'))

/-! ## The invariant -/

/-- The clock has reached a moment, and nothing is pending before it. All times are times that the
clock can show. -/
structure Since (m : ChannelName × Nat) (t : Timeline) : Prop where
  now_le : t.now ≤ Clock.last
  reached : m.2 ≤ t.now
  due_le : ∀ n d, (t.channel n).due = some d → d ≤ Clock.last
  pending : ∀ n d, (t.channel n).due = some d → InOrder m (n, d)

theorem since_new (s : PlaybackSettings) (a : AudioSettings) (k : Sink) :
    Since (.live, 0) (new s a k) where
  now_le := Nat.zero_le _
  reached := Nat.le_refl _
  due_le := by intro n d hd; cases n <;> cases hd
  pending := by intro n d hd; cases n <;> cases hd

variable {m : ChannelName × Nat} {t : Timeline}

theorem Since.atTime (h : Since m t) {now : Nat} (hle : t.now ≤ now) (hl : now ≤ Clock.last) :
    Since m (t.atTime now) where
  now_le := hl
  reached := Nat.le_trans h.reached hle
  due_le := by intro n d hd; rw [atTime_channel] at hd; exact h.due_le n d hd
  pending := by intro n d hd; rw [atTime_channel] at hd; exact h.pending n d hd

/-- What an edit makes pending is due at the clock. -/
theorem Since.edit {time : Nat} (h : Since (.live, time) t) (op : Operation) :
    Since (.live, time) (t.edit op) where
  now_le := by rw [edit_now]; exact h.now_le
  reached := by rw [edit_now]; exact h.reached
  due_le := by
    intro n d hd
    rcases edit_pending hd with hold | ⟨rfl, -⟩
    · exact h.due_le n d hold
    · exact h.now_le
  pending := by
    intro n d hd
    rcases edit_pending hd with hold | ⟨rfl, -⟩
    · exact h.pending n d hold
    · exact .of_live h.reached

/-- A turn of the loop: nothing is pending before the step that has just run. -/
theorem Since.fire (h : Since m t) {name : ChannelName} {due : Nat}
    (he : t.earliest? = some (name, due)) : Since (name, due) (t.fire name due).2 := by
  obtain ⟨hd, hfirst⟩ := earliest?_eq_some_iff.mp he
  obtain ⟨hnow, -, -, hother⟩ := fire_frame hd
  have hdue := h.due_le name due hd
  have hnext : ∀ n d, ((t.fire name due).2.channel n).due = some d →
      d ≤ Clock.last ∧ InOrder (name, due) (n, d) := by
    intro n d hn
    by_cases hname : n = name
    · subst hname
      rw [fire_channel hd] at hn
      split at hn
      · exact ⟨h.due_le n d hn, hfirst n d hn⟩
      · rename_i time steps c hf
        have htime : time = due := by
          have := (Channel.fire?_cases hf).1
          rw [hd] at this; exact (Option.some.inj this).symm
        subst htime
        obtain ⟨hle, hlater⟩ := Channel.fire?_due hf hn
        exact ⟨hle, .of_le (by omega)⟩
    · rw [hother n hname] at hn
      exact ⟨h.due_le n d hn, hfirst n d hn⟩
  refine ⟨?_, ?_, fun n d hn => (hnext n d hn).1, fun n d hn => (hnext n d hn).2⟩
  · rw [hnow]; exact Nat.max_le.mpr ⟨h.now_le, hdue⟩
  · rw [hnow]; exact Nat.le_max_right _ _

theorem fire_moment {name : ChannelName} {due : Nat} (hd : (t.channel name).due = some due) :
    ∀ e ∈ (t.fire name due).1, e.moment = (name, due) := by
  intro e he
  rw [fire_eq hd] at he
  split at he
  · cases he
  · obtain ⟨step, -, rfl⟩ := List.mem_map.mp he
    rfl

/-- The loop runs what is pending in order, and leaves nothing pending before what it has run. -/
theorem Since.runDue (h : Since m t) (target n : Nat) :
    ∃ m', Since m' (Timeline.runDue target n t).2 ∧ InOrder m m' ∧
      (Timeline.runDue target n t).1.Pairwise (fun d e => InOrder d.moment e.moment) ∧
      ∀ e ∈ (Timeline.runDue target n t).1, InOrder m e.moment ∧ InOrder e.moment m' := by
  induction n generalizing m t with
  | zero => exact ⟨m, h, .refl m, .nil, by intro e he; cases he⟩
  | succ n ih =>
    rcases backlog_cases t target with hb | ⟨name, due, he, hle⟩
    · rw [runDue_stop hb]
      exact ⟨m, h, .refl m, .nil, by intro e he; cases he⟩
    have hd := earliest?_due he
    have hm := h.pending name due hd
    have hfirst := fire_moment hd
    obtain ⟨m', hsince, hmm', hsorted, hbounds⟩ := ih (h.fire he)
    rw [runDue_step he hle]
    refine ⟨m', hsince, hm.trans hmm', List.pairwise_append.mpr ⟨?_, hsorted, ?_⟩, ?_⟩
    · refine List.pairwise_of_forall_mem_list ?_
      intro d hd' e he'
      rw [hfirst d hd', hfirst e he']; exact .refl _
    · intro d hd' e he'
      rw [hfirst d hd']; exact (hbounds e he').1
    · intro e hmem
      rcases List.mem_append.mp hmem with hhere | hlater
      · rw [hfirst e hhere]; exact ⟨hm, hmm'⟩
      · exact ⟨hm.trans (hbounds e hlater).1, (hbounds e hlater).2⟩

/-! ## Calls and runs -/

/-- A call returns its events in order, none before what was run earlier and none after the clock,
and leaves nothing pending before them. -/
theorem Since.perform {time : Nat} (h : Since (.live, time) t) (op : Operation) :
    ∃ later, Since (.live, later) (t.perform op).2 ∧ time ≤ later ∧
      (t.perform op).1.Pairwise (fun d e => InOrder d.moment e.moment) ∧
      ∀ e ∈ (t.perform op).1, time ≤ e.time ∧ e.time ≤ later := by
  have hedit := h.edit op
  rw [perform_eq]
  cases t.target? op with
  | none => exact ⟨time, hedit, Nat.le_refl _, .nil, by intro e he; cases he⟩
  | some target =>
    obtain ⟨m', hsince, hle, hsorted, hbounds⟩ := hedit.runDue (min target Clock.last) maxSteps
    have hlive : Since (.live, m'.2)
        (Timeline.runDue (min target Clock.last) maxSteps (t.edit op)).2 :=
      { hsince with pending := fun n d hd => .of_live (hsince.pending n d hd).le }
    have hclock := now_runDue_le (min target Clock.last) maxSteps (t.edit op)
    have hT := Nat.min_le_right target Clock.last
    simp only [advanceTo_eq]
    refine ⟨m'.2, hlive.atTime hclock (Nat.max_le.mpr ⟨hedit.now_le, hT⟩), hle.le, hsorted, ?_⟩
    intro e he
    exact ⟨(hbounds e he).1.le, (hbounds e he).2.le⟩

theorem Since.after {time : Nat} (h : Since (.live, time) t) (ops : List Operation) :
    ∃ later, Since (.live, later) (t.after ops) := by
  induction ops generalizing t time with
  | nil => exact ⟨time, h⟩
  | cons op ops ih =>
    obtain ⟨later, hnext, -⟩ := h.perform op
    exact ih hnext

theorem Since.calls {time : Nat} (h : Since (.live, time) t) (ops : List Operation) :
    ((t.calls ops).flatMap (·.2)).Pairwise (fun d e => d.time ≤ e.time) ∧
      ∀ e ∈ (t.calls ops).flatMap (·.2), time ≤ e.time := by
  induction ops generalizing t time with
  | nil => exact ⟨.nil, by intro e he; cases he⟩
  | cons op ops ih =>
    obtain ⟨later, hnext, hle, hsorted, hbounds⟩ := h.perform op
    obtain ⟨hrest, hlater⟩ := ih hnext
    simp only [Timeline.calls, List.flatMap_cons]
    refine ⟨List.pairwise_append.mpr ⟨hsorted.imp InOrder.le, hrest, ?_⟩, ?_⟩
    · intro d hd e he
      exact Nat.le_trans (hbounds d hd).2 (hlater e he)
    · intro e hmem
      rcases List.mem_append.mp hmem with hhere | hthere
      · exact (hbounds e hhere).1
      · exact Nat.le_trans hle (hlater e hthere)

/-- **Events come in order.** Over a whole run the times of the events never decrease, past targets
and calls that stop short included. A single call, after any run, returns its events by time, live
before ghost at the same time, and none of them after the clock; the clock never goes back, and an
advance moves it to its target unless it is there already. -/
theorem events_in_order (s : PlaybackSettings) (a : AudioSettings) (k : Sink)
    (ops : List Operation) :
    let t := (new s a k).after ops
    (((new s a k).calls ops).flatMap (·.2)).Pairwise (fun d e => d.time ≤ e.time) ∧
      (∀ op, (t.perform op).1.Pairwise (fun d e => InOrder d.moment e.moment) ∧
        (∀ e ∈ (t.perform op).1, e.time ≤ (t.perform op).2.now) ∧
        t.now ≤ (t.perform op).2.now) ∧
      ∀ target : UInt64, (t.advanceTo target.toNat).2.now = max t.now target.toNat := by
  intro t
  obtain ⟨time, ht⟩ := (since_new s a k).after ops
  refine ⟨((since_new s a k).calls ops).1, ?_, ?_⟩
  · intro op
    obtain ⟨later, hnext, -, hsorted, hbounds⟩ := ht.perform op
    refine ⟨hsorted, fun e he => Nat.le_trans (hbounds e he).2 hnext.reached, ?_⟩
    rw [perform_now]
    split
    · exact Nat.le_max_left _ _
    · exact Nat.le_refl _
  · intro target
    have hfit : min target.toNat Clock.last = target.toNat :=
      Nat.min_eq_left (Nat.le_of_lt_succ target.toNat_lt)
    simp only [advanceTo_eq, atTime_now, hfit]

end Timeline
end TracePlayback
