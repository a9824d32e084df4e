import TracePlayback.Playback.Channel

/-!
# One step of a channel

`Channel.fire?` has three exits: it plays an entry, it ends the trace, or it runs nothing. Here each
exit is said once, so that what follows never opens `fire?`, `play` or `land` again.

* `play_eq`: what playing an entry shows, and where it leaves the channel, in terms of the node that
  the entry lands on (`Trace.landing?`).
* `mem_play`: what an entry shows are visits of nodes of the graph and moves to them.
* `fire?_cases`: a step that runs is stamped with the time it was due, and either plays the next
  entry (`next?`) or ends the trace.
* `fire?_of_due_le`: what a step does depends on when it was due, not on when it is run.
* `lt_after`, `fire?_due`: the next step is due later, as long as the clock can show it.
-/
namespace TracePlayback

/-! ## Landing -/

/-- The node that an entry lands on, if its line has one. -/
def Trace.landing? (t : Trace) (g : Graph) (i : Nat) : Option Node :=
  (t.lineAt? i).bind g.nodeForLine?

/-- What an entry shows that lands on `node`, when the last one landed on `previous`. -/
def Step.ofLanding (g : Graph) (previous : Option NodeId) (node : Node) : List Step :=
  .visit node.id node.kind (previous = some node.id) ::
    (match previous with
    | some p => if p = node.id then [] else [.traverse p node.id (g.isLinked p node.id)]
    | none => [])

/-- An entry that lands shows a visit of its node, and then a move if the last node was another
one. -/
theorem Step.mem_ofLanding {g : Graph} {previous : Option NodeId} {node : Node} {step : Step}
    (h : step ∈ Step.ofLanding g previous node) :
    (∃ revisit, step = .visit node.id node.kind revisit) ∨
      ∃ source linked, step = .traverse source node.id linked := by
  rcases List.mem_cons.mp h with rfl | h
  · exact Or.inl ⟨_, rfl⟩
  · split at h
    · split at h
      · cases h
      · exact Or.inr ⟨_, _, List.mem_singleton.mp h⟩
    · cases h

theorem Trace.mem_of_landing? {t : Trace} {g : Graph} {i : Nat} {node : Node}
    (h : t.landing? g i = some node) : node ∈ g.nodes := by
  obtain ⟨line, -, hline⟩ := Option.bind_eq_some_iff.mp h
  exact List.mem_of_find?_eq_some hline

/-- The link that a channel is on after an entry has landed on `node`. -/
def ActiveLink.ofLanding (previous : Option NodeId) (link : Option ActiveLink) (node : Node) :
    Option ActiveLink :=
  match previous with
  | some p => if p = node.id then link else some ⟨p, node.id⟩
  | none => link

/-- Two nodes, on lines 1 and 2, and the link between them. -/
def Graph.pair : Graph where
  nodes := [⟨⟨"f"⟩, .function, "f", some 1⟩, ⟨⟨"loop"⟩, .loop, "loop", some 2⟩]
  links := [⟨⟨"f"⟩, ⟨"loop"⟩⟩]

namespace Channel

theorem land_eq (c : Channel) (g : Graph) (node : Node) :
    c.land g node = (Step.ofLanding g c.activeNode node,
      { c with
        activeNode := some node.id
        activeLink := ActiveLink.ofLanding c.activeNode c.activeLink node }) := by
  unfold land Step.ofLanding ActiveLink.ofLanding
  cases h : c.activeNode with
  | none => simp
  | some p =>
    by_cases hp : p = node.id
    · simp [hp]
    · simp [hp]

/-- Playing an entry, with the two cases of its landing folded into the fields they change. -/
theorem play_eq (c : Channel) (s : PlaybackSettings) (g : Graph) (trace : Trace) (i time : Nat) :
    c.play s g trace i time =
      (((trace.landing? g i).map (Step.ofLanding g c.activeNode)).getD [],
        { c with
          cursor := i + 1
          activeNode := (trace.landing? g i).elim c.activeNode fun node => some node.id
          activeLink := (trace.landing? g i).elim c.activeLink
            (ActiveLink.ofLanding c.activeNode c.activeLink)
          lastAdvance := some time
          due := some (Clock.after time (trace.delayAfter s i)) }) := by
  unfold play Trace.landing?
  cases (trace.lineAt? i).bind g.nodeForLine? with
  | none => rfl
  | some node => simp [land_eq]

theorem mem_play {c c' : Channel} {s : PlaybackSettings} {g : Graph} {trace : Trace} {i time : Nat}
    {steps : List Step} {step : Step} (hp : c.play s g trace i time = (steps, c'))
    (h : step ∈ steps) :
    ∃ node ∈ g.nodes, (∃ revisit, step = .visit node.id node.kind revisit) ∨
      ∃ source linked, step = .traverse source node.id linked := by
  rw [play_eq] at hp
  obtain ⟨rfl, -⟩ := Prod.mk.inj hp
  cases hl : trace.landing? g i with
  | none => simp [hl] at h
  | some node =>
    simp only [hl, Option.map_some, Option.getD_some] at h
    exact ⟨node, Trace.mem_of_landing? hl, Step.mem_ofLanding h⟩

/-! ## The exits of `fire?` -/

/-- The entry that the next step plays, if it plays one: the one under the cursor, or the first one
of a trace that starts over. -/
def next? (c : Channel) : Option Nat :=
  if c.cursor < c.length then some c.cursor
  else if c.looping ∧ 0 < c.length then some 0
  else none

theorem next?_lt {c : Channel} {i : Nat} (h : c.next? = some i) : i < c.length := by
  unfold next? at h
  split at h
  · rename_i hc; cases h; exact hc
  · split at h
    · rename_i hl; cases h; exact hl.2
    · cases h

theorem fire?_eq {c : Channel} {s : PlaybackSettings} {g : Graph} {trace : Trace} {time now : Nat}
    (hd : c.due = some time) (ht : c.trace = some trace) (hn : time ≤ now) :
    c.fire? s g now =
      match c.next? with
      | some i => some (time, c.play s g trace i time)
      | none => some (time, c.finish time) := by
  have hlen : c.length = trace.length := by simp [length, ht]
  simp only [fire?, hd, ht, next?, hlen, Option.bind_eq_bind, Option.bind_some,
    if_neg (Nat.not_lt.mpr hn)]
  split
  · rfl
  · split <;> rfl

theorem fire?_of_lt {c : Channel} {s : PlaybackSettings} {g : Graph} {time now : Nat}
    (hd : c.due = some time) (hn : now < time) : c.fire? s g now = none := by
  cases ht : c.trace with
  | none => simp [fire?, hd, ht]
  | some trace => simp [fire?, hd, ht, hn]

theorem fire?_of_due_none {c : Channel} (s : PlaybackSettings) (g : Graph) (now : Nat)
    (hd : c.due = none) : c.fire? s g now = none := by
  simp [fire?, hd]

/-- What a step does depends on when it was due, not on when it is run. -/
theorem fire?_of_due_le {c : Channel} (s : PlaybackSettings) (g : Graph) {time now : Nat}
    (hd : c.due = some time) (hn : time ≤ now) : c.fire? s g now = c.fire? s g time := by
  cases ht : c.trace with
  | none => simp [fire?, hd, ht]
  | some trace => rw [fire?_eq hd ht hn, fire?_eq hd ht (Nat.le_refl time)]

/-- All that a step can be: it is stamped with the time it was due, and plays an entry or ends the
trace. -/
theorem fire?_cases {c c' : Channel} {s : PlaybackSettings} {g : Graph} {now time : Nat}
    {steps : List Step} (h : c.fire? s g now = some (time, steps, c')) :
    c.due = some time ∧ time ≤ now ∧ ∃ trace, c.trace = some trace ∧
      ((∃ i, c.next? = some i ∧ c.play s g trace i time = (steps, c')) ∨
        (c.next? = none ∧ c.finish time = (steps, c'))) := by
  cases hd : c.due with
  | none => rw [fire?_of_due_none s g now hd] at h; cases h
  | some due =>
    rcases Nat.lt_or_ge now due with hlt | hle
    · rw [fire?_of_lt hd hlt] at h; cases h
    cases ht : c.trace with
    | none => simp [fire?, hd, ht] at h
    | some trace =>
      rw [fire?_eq hd ht hle] at h
      cases hi : c.next? with
      | some i =>
        simp only [hi, Option.some.injEq, Prod.mk.injEq] at h
        obtain ⟨rfl, h⟩ := h
        exact ⟨rfl, hle, trace, rfl, Or.inl ⟨i, rfl, h⟩⟩
      | none =>
        simp only [hi, Option.some.injEq, Prod.mk.injEq] at h
        obtain ⟨rfl, h⟩ := h
        exact ⟨rfl, hle, trace, rfl, Or.inr ⟨rfl, h⟩⟩

/-! ## Delays -/

theorem one_le_delayAfter (s : PlaybackSettings) (t : Trace) (i : Nat) : 1 ≤ t.delayAfter s i :=
  Nat.le_max_left _ _

/-- The next step is due later than this one, unless the clock cannot show it. -/
theorem lt_after (time : Nat) {delay : Nat} (hd : 1 ≤ delay) :
    time < Clock.after time delay ∨ Clock.after time delay = Clock.last := by
  unfold Clock.after; omega

/-- The step that is pending after one that was due at `time`: it is due later, unless the clock
cannot show that, and never after the last millisecond. -/
theorem fire?_due {c c' : Channel} {s : PlaybackSettings} {g : Graph} {now time due : Nat}
    {steps : List Step} (h : c.fire? s g now = some (time, steps, c')) (hd : c'.due = some due) :
    due ≤ Clock.last ∧ (time < due ∨ due = Clock.last) := by
  obtain ⟨-, -, trace, -, ⟨i, -, hp⟩ | ⟨-, hp⟩⟩ := fire?_cases h
  · rw [play_eq] at hp
    obtain ⟨-, rfl⟩ := Prod.mk.inj hp
    obtain rfl := Option.some.inj hd
    exact ⟨Nat.min_le_right _ _, lt_after time (one_le_delayAfter s trace i)⟩
  · obtain ⟨-, rfl⟩ := Prod.mk.inj hp
    cases hd

end Channel
end TracePlayback
