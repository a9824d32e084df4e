import TracePlayback.Proofs.Playback.Step

/-!
# A whole performance in closed form

A `Performance` is a trace played on a graph from a time on. Its `k`-th step is given without a
channel, by what came before `k` in the trace alone: the entry it plays (`entry`), the time it is
stamped with (`stamp`), the node that was landed on last (`previous?`), and so what it shows
(`step?`).

A channel that has just been given the trace plays exactly that. `At` ties the fields of the channel
after `k` steps to the closed form; `At.fire` is one step, `At.firings` any number of them.

* `firings_bind`: calling `fire?` again and again, each time at or after the time the pending step
  is due, answers with the steps of the performance in order, and with nothing once it is over.
-/
namespace TracePlayback

/-- The difference of two words, as far as a word goes. -/
def saturatingSub (a b : Int64) : Int :=
  max Int64.minValue.toInt (min (a.toInt - b.toInt) Int64.maxValue.toInt)

theorem gap_eq (a b : GhostEntry) :
    Trace.gap a b = (saturatingSub b.timestamp a.timestamp).toNat := by
  have hmin : Int64.minValue.toInt = -9223372036854775808 := by decide
  have hmax : Int64.maxValue.toInt = 9223372036854775807 := by decide
  unfold Trace.gap saturatingSub
  rw [hmin, hmax]
  omega

/-- A trace that is played on a graph from a time on. -/
structure Performance where
  settings : PlaybackSettings
  graph : Graph
  trace : Trace
  looping : Bool
  start : Nat

namespace Performance

variable (p : Performance)

/-- The entry that a step plays: traces that loop begin again after their last entry. -/
def entry (k : Nat) : Nat := if p.looping then k % p.trace.length else k

/-- Whether a step plays an entry. -/
def plays (k : Nat) : Bool := k < p.trace.length || (p.looping && 0 < p.trace.length)

/-- The time from an entry to the next step. -/
def pause (i : Nat) : Nat :=
  match p.trace with
  | .live _ => max 1 p.settings.liveStepMs
  | .ghost t =>
    match t.entries[i]?, t.entries[i + 1]? with
    | some a, some b =>
      max 1 (max p.settings.ghostMinDelayMs (saturatingSub b.timestamp a.timestamp).toNat)
    | _, _ => max 1 p.settings.ghostTailMs

/-- The time that a step is stamped with. -/
def stamp : Nat → Nat
  | 0 => p.start
  | k + 1 => min (stamp k + p.pause (p.entry k)) Clock.last

/-- The node that a step lands on. -/
def landing? (k : Nat) : Option Node := p.trace.landing? p.graph (p.entry k)

/-- The node that the last step before this one landed on that did land. -/
def previous? (k : Nat) : Option NodeId :=
  ((List.range k).filterMap p.landing?).getLast?.map Node.id

/-- What a step shows that plays an entry. -/
def shows (k : Nat) : List Step :=
  match p.landing? k with
  | some node => Step.ofLanding p.graph (p.previous? k) node
  | none => []

/-- The time and the events of a step: entries as long as there are any, then the end, then
nothing. -/
def step? (k : Nat) : Option (Nat × List Step) :=
  if p.plays k then some (p.stamp k, p.shows k)
  else if k = p.trace.length then some (p.stamp k, [.finished])
  else none

/-! ## From one step to the next -/

theorem pause_eq (i : Nat) : p.pause i = p.trace.delayAfter p.settings i := by
  unfold pause Trace.delayAfter
  cases p.trace with
  | live t => rfl
  | ghost t =>
    simp only
    cases t.entries[i]? with
    | none => rfl
    | some a =>
      cases t.entries[i + 1]? with
      | none => rfl
      | some b => simp only [gap_eq, Nat.max_comm]

theorem stamp_succ (k : Nat) :
    p.stamp (k + 1) = Clock.after (p.stamp k) (p.trace.delayAfter p.settings (p.entry k)) := by
  rw [stamp, pause_eq]; rfl

theorem previous?_succ (k : Nat) :
    p.previous? (k + 1) = (p.landing? k).elim (p.previous? k) fun node => some node.id := by
  unfold previous?
  rw [List.range_succ, List.filterMap_append, List.getLast?_append]
  cases h : p.landing? k with
  | none => simp [h]
  | some node => simp [h]

/-- The entry under the cursor after `k` steps: the one behind the last entry played. -/
def cursor : Nat → Nat
  | 0 => 0
  | k + 1 => p.entry k + 1

theorem cursor_of_not_looping (h : p.looping = false) (k : Nat) : p.cursor k = k := by
  cases k with
  | zero => rfl
  | succ k => simp [cursor, entry, h]

/-- In a trace that loops, the cursor is at the entry of the next step, or behind the last entry when
that step is the first one again. -/
theorem cursor_of_looping (h : p.looping = true) (hn : 0 < p.trace.length) (k : Nat) :
    p.cursor k = k % p.trace.length ∨ (p.cursor k = p.trace.length ∧ k % p.trace.length = 0) := by
  cases k with
  | zero => left; simp [cursor]
  | succ k =>
    have hlt := Nat.mod_lt k hn
    have hmod : (k % p.trace.length + 1) % p.trace.length = (k + 1) % p.trace.length :=
      Nat.mod_add_mod k p.trace.length 1
    simp only [cursor, entry, h, if_true]
    rcases Nat.lt_or_ge (k % p.trace.length + 1) p.trace.length with hlt' | hge
    · left; rw [← hmod, Nat.mod_eq_of_lt hlt']
    · right
      have heq : k % p.trace.length + 1 = p.trace.length := by omega
      refine ⟨heq, ?_⟩
      rw [← hmod, heq, Nat.mod_self]

/-- A channel with the cursor of the `k`-th step plays the entry of the `k`-th step, if there is
one. -/
theorem next?_of_cursor {c : Channel} (ht : c.trace = some p.trace) (hl : c.looping = p.looping)
    {k : Nat} (hc : c.cursor = p.cursor k) :
    c.next? = if p.plays k then some (p.entry k) else none := by
  have hlen : c.length = p.trace.length := by simp [Channel.length, ht]
  unfold Channel.next? plays entry
  rw [hlen, hl, hc]
  cases hloop : p.looping with
  | false => simp [cursor_of_not_looping p hloop k]
  | true =>
    rcases Nat.eq_zero_or_pos p.trace.length with hz | hpos
    · simp [hz]
    · have hlt := Nat.mod_lt k hpos
      rcases cursor_of_looping p hloop hpos k with h | ⟨h, hk⟩
      · simp [h, hlt, hpos]
      · simp [h, hk, hpos]

/-! ## A channel on its way through a performance -/

/-- A channel that has taken `k` steps of a performance, and is not at the end. -/
structure At (k : Nat) (c : Channel) : Prop where
  trace : c.trace = some p.trace
  looping : c.looping = p.looping
  active : c.activeNode = p.previous? k
  cursor : c.cursor = p.cursor k
  due : c.due = some (p.stamp k)
  played : ∀ j < k, p.plays j = true

variable {p}

theorem at_bind {c : Channel} (hl : c.looping = p.looping) :
    p.At 0 (c.bind (some p.trace) p.start) where
  trace := rfl
  looping := hl
  active := rfl
  cursor := rfl
  due := rfl
  played := by intro j hj; omega

theorem At.fire {k now : Nat} {c : Channel} (h : p.At k c) (hp : p.plays k = true)
    (hn : p.stamp k ≤ now) :
    ∃ c', c.fire? p.settings p.graph now = some (p.stamp k, p.shows k, c') ∧ p.At (k + 1) c' := by
  have hi : c.next? = some (p.entry k) := by
    rw [p.next?_of_cursor h.trace h.looping h.cursor, hp, if_pos rfl]
  have hshow : ((p.landing? k).map (Step.ofLanding p.graph c.activeNode)).getD [] = p.shows k := by
    unfold shows
    rw [h.active]
    cases p.landing? k with
    | none => rfl
    | some node => rfl
  have hplay := Channel.play_eq c p.settings p.graph p.trace (p.entry k) (p.stamp k)
  refine ⟨(c.play p.settings p.graph p.trace (p.entry k) (p.stamp k)).2, ?_, ?_⟩
  · rw [Channel.fire?_eq h.due h.trace hn, hi]
    simp only [hplay]
    rw [← hshow]; rfl
  · rw [hplay]
    exact {
      trace := h.trace
      looping := h.looping
      active := by rw [previous?_succ, ← h.active]; rfl
      cursor := rfl
      due := by rw [stamp_succ]
      played := by
        intro j hj
        rcases Nat.lt_succ_iff_lt_or_eq.mp hj with hlt | rfl
        · exact h.played j hlt
        · exact hp }

/-- The first step that plays no entry is the end of the trace. -/
theorem At.finish {k now : Nat} {c : Channel} (h : p.At k c) (hp : p.plays k = false)
    (hn : p.stamp k ≤ now) :
    k = p.trace.length ∧ ∃ c', c.fire? p.settings p.graph now = some (p.stamp k, [.finished], c') ∧
      c'.due = none := by
  have hi : c.next? = none := by
    rw [p.next?_of_cursor h.trace h.looping h.cursor, hp]; rfl
  refine ⟨?_, _, by rw [Channel.fire?_eq h.due h.trace hn, hi]; rfl, rfl⟩
  have hprev := h.played (k - 1)
  simp only [plays, Bool.or_eq_false_iff, decide_eq_false_iff_not, Nat.not_lt, Bool.and_eq_false_iff,
    Bool.or_eq_true, decide_eq_true_eq, Bool.and_eq_true] at hp hprev
  obtain ⟨hle, hloop⟩ := hp
  rcases Nat.eq_zero_or_pos k with hz | hpos
  · omega
  · rcases hprev (by omega) with hlt | ⟨hl, hpos'⟩
    · omega
    · rw [hl] at hloop
      rcases hloop with hl | hz
      · cases hl
      · omega

theorem step?_of_lt {j k : Nat} (hp : p.plays j = false) (hjk : j < k) : p.step? k = none := by
  simp only [plays, Bool.or_eq_false_iff, decide_eq_false_iff_not, Nat.not_lt] at hp
  have hk : p.plays k = false := by
    simp only [plays, hp.2, Bool.or_false, decide_eq_false_iff_not]; omega
  rw [step?, hk, if_neg (by decide), if_neg (by omega)]

end Performance

namespace Channel

/-- The answers of a channel that is called again and again, at the times of a list. -/
def firings (c : Channel) (s : PlaybackSettings) (g : Graph) :
    List Nat → List (Option (Nat × List Step))
  | [] => []
  | now :: rest =>
    match c.fire? s g now with
    | some (time, steps, c') => some (time, steps) :: c'.firings s g rest
    | none => none :: c.firings s g rest

theorem firings_of_due_none {c : Channel} (s : PlaybackSettings) (g : Graph) (hd : c.due = none)
    (nows : List Nat) : c.firings s g nows = nows.map fun _ => none := by
  induction nows with
  | nil => rfl
  | cons now rest ih => simp only [firings, fire?_of_due_none s g now hd, ih, List.map_cons]

end Channel

namespace Performance

variable {p : Performance}

/-- Any number of calls, from the `k`-th step on. -/
theorem At.firings {k : Nat} {c : Channel} (h : p.At k c) (nows : List Nat)
    (hn : ∀ i (hi : i < nows.length), p.step? (k + i) ≠ none → p.stamp (k + i) ≤ nows[i]) :
    c.firings p.settings p.graph nows =
      (List.range nows.length).map fun i => p.step? (k + i) := by
  induction nows generalizing k c with
  | nil => rfl
  | cons now rest ih =>
    rw [List.length_cons, List.range_succ_eq_map, List.map_cons, List.map_map]
    cases hp : p.plays k with
    | true =>
      have hk : p.step? k = some (p.stamp k, p.shows k) := by rw [step?, hp, if_pos rfl]
      have hnow : p.stamp k ≤ now := hn 0 (Nat.zero_lt_succ _) (by rw [Nat.add_zero, hk]; simp)
      obtain ⟨c', hf, h'⟩ := h.fire hp hnow
      have hrest := ih h' (by
        intro i hi hs
        have := hn (i + 1) (Nat.succ_lt_succ hi)
        rw [show k + (i + 1) = k + 1 + i by omega] at this
        exact this hs)
      simp only [Channel.firings, hf, hrest, Nat.add_zero, hk]
      refine congrArg (_ :: ·) (List.map_congr_left fun i _ => ?_)
      simp only [Function.comp, Nat.succ_eq_add_one]
      rw [show k + (i + 1) = k + 1 + i by omega]
    | false =>
      have hk : p.step? k = if k = p.trace.length then some (p.stamp k, [.finished]) else none := by
        rw [step?, hp, if_neg (by decide)]
      rw [if_pos (h.finish hp (Nat.le_refl _)).1] at hk
      have hnow : p.stamp k ≤ now := hn 0 (Nat.zero_lt_succ _) (by rw [Nat.add_zero, hk]; simp)
      obtain ⟨-, c', hf, hd⟩ := h.finish hp hnow
      simp only [Channel.firings, hf, Channel.firings_of_due_none _ _ hd, Nat.add_zero, hk]
      refine congrArg (_ :: ·) (List.ext_getElem (by simp) fun i _ _ => ?_)
      simp only [List.getElem_map, Function.comp, List.getElem_range]
      exact (step?_of_lt hp (by omega)).symm

/-- **A whole performance.** Give a channel a trace, and then call `fire?` again and again, at times
that have reached the pending step: the answers are the steps of the performance, in order, and
nothing once it is over. -/
theorem firings_bind (p : Performance) (c : Channel) (hl : c.looping = p.looping) (nows : List Nat)
    (hn : ∀ k (hk : k < nows.length), p.step? k ≠ none → p.stamp k ≤ nows[k]) :
    (c.bind (some p.trace) p.start).firings p.settings p.graph nows =
      (List.range nows.length).map p.step? := by
  have h := (at_bind hl).firings nows (by simpa only [Nat.zero_add] using hn)
  simpa only [Nat.zero_add] using h

/-- A recording with a line that no node is on, a time that goes back, and a node shown twice. -/
def detour : Performance where
  settings := {}
  graph := .pair
  trace := .ghost ⟨#[⟨1, 0⟩, ⟨7, 120⟩, ⟨2, 100⟩, ⟨2, 400⟩]⟩
  looping := false
  start := 10

theorem detour_firings :
    (∀ k (hk : k < 6), detour.step? k ≠ none →
        detour.stamp k ≤ ([10, 130, 200, 480, 990, 5000] : List Nat)[k]) ∧
      (Channel.bind {} (some detour.trace) 10).firings {} .pair [10, 130, 200, 480, 990, 5000] =
        [some (10, [.visit ⟨"f"⟩ .function false]), some (130, []),
          some (180, [.visit ⟨"loop"⟩ .loop false, .traverse ⟨"f"⟩ ⟨"loop"⟩ true]),
          some (480, [.visit ⟨"loop"⟩ .loop true]), some (980, [.finished]), none] :=
  ⟨by decide, (firings_bind detour {} rfl [10, 130, 200, 480, 990, 5000] (by decide)).trans
    (by decide)⟩

example : { detour with looping := true }.step? 4 =
    some (980, [.visit ⟨"f"⟩ .function false, .traverse ⟨"loop"⟩ ⟨"f"⟩ true]) := by decide

end Performance
end TracePlayback
