import Mathlib.Algebra.Ring.Nat
import TracePlayback.Engine
import TracePlayback.Proofs.Playback.Operation

/-!
# Playback does not depend on the frame rate

A host plays on by the time since its last frame, so the same time arrives in pieces of any length,
shorter than the millisecond that the timeline counts in, or none at all.

* `advanceTo_split`: an advance that leaves nothing due can be made in two parts at any earlier
  target, since a step is stamped with the time it was due (`runDue_split`) and the clock between
  the parts does not matter (`runDue_atTime`).
* `millis_mono`: the playback clock never shows an earlier millisecond after it has been moved on, so
  every frame border is such a target.
* `frames_advance`: playing on frame by frame is playing on once by the sum of the frames.
-/
namespace TracePlayback

namespace Timeline

/-- An advance that leaves nothing due by its target can be made in two parts. -/
theorem advanceTo_split {mid target : Nat} {t : Timeline} (hmt : mid ≤ target)
    (h : (t.advanceTo target).2.hasBacklog (min target Clock.last) = false) :
    t.advanceTo target =
      ((t.advanceTo mid).1 ++ ((t.advanceTo mid).2.advanceTo target).1,
        ((t.advanceTo mid).2.advanceTo target).2) := by
  rw [advanceTo_eq t target] at h ⊢
  rw [advanceTo_eq _ target, advanceTo_eq t mid]
  have hM : min mid Clock.last ≤ min target Clock.last := by omega
  generalize min mid Clock.last = m at hM ⊢
  generalize min target Clock.last = T at h hM ⊢
  rw [atTime_hasBacklog] at h
  have hs := runDue_split hM h
  obtain ⟨h1, h2⟩ :=
    runDue_atTime T maxSteps (runDue m maxSteps t).2 (max t.now m) (max t.now T)
  simp only [atTime_now, h1, show max (max t.now m) T = max t.now T by omega, h2]
  rw [hs]

end Timeline

/-! ## The playback clock -/

theorem Clock.millis_mono {a b : Nat} (h : a ≤ b) : Clock.millis a ≤ Clock.millis b := by
  have := Nat.div_le_div_right (c := 1000000) h
  unfold millis; omega

theorem Clock.millis_le_last (nanos : Nat) : Clock.millis nanos ≤ Clock.last :=
  Nat.min_le_right _ _

namespace Engine

variable {γ : Type}

/-- Plays on frame by frame: all events in order, and the engine after the last frame. -/
def advanceFrames (e : Engine γ) : List Nat → Except EngineError (List Event × Engine γ)
  | [] => pure ([], e)
  | nanos :: rest => do
    let (events, e) ← e.advancePlayback nanos
    let (more, e) ← e.advanceFrames rest
    pure (events ++ more, e)

/-- Playing on stops short if it leaves a step due that it was to run. -/
def stopsShort (e : Engine γ) (nanos : Nat) : Bool :=
  match e.advancePlayback nanos with
  | .ok (_, later) => later.timeline.hasBacklog (Clock.millis later.clock)
  | .error _ => false

theorem advancePlayback_eq {e : Engine γ} {nanos : Nat} (h : e.clock + nanos ≤ Clock.maxNanos) :
    e.advancePlayback nanos =
      .ok ((e.timeline.advanceTo (Clock.millis (e.clock + nanos))).1,
        { e with
          clock := e.clock + nanos
          timeline := (e.timeline.advanceTo (Clock.millis (e.clock + nanos))).2 }) := by
  unfold advancePlayback
  simp only [if_neg (Nat.not_lt.mpr h)]
  rfl

theorem stopsShort_eq {e : Engine γ} {nanos : Nat} (h : e.clock + nanos ≤ Clock.maxNanos) :
    e.stopsShort nanos =
      (e.timeline.advanceTo (Clock.millis (e.clock + nanos))).2.hasBacklog
        (Clock.millis (e.clock + nanos)) := by
  unfold stopsShort
  rw [advancePlayback_eq h]

/-- One frame, and then all that is left at once. -/
theorem advancePlayback_add {e : Engine γ} {a b : Nat} (hfit : e.clock + (a + b) ≤ Clock.maxNanos)
    (hs : e.stopsShort (a + b) = false) :
    ∃ events more e₁ e₂, e.advancePlayback a = .ok (events, e₁) ∧
      e₁.clock = e.clock + a ∧ e₁.stopsShort b = false ∧
      e₁.advancePlayback b = .ok (more, e₂) ∧
      e.advancePlayback (a + b) = .ok (events ++ more, e₂) := by
  have hmid : Clock.millis (e.clock + a) ≤ Clock.millis (e.clock + (a + b)) :=
    Clock.millis_mono (by omega)
  have hT : min (Clock.millis (e.clock + (a + b))) Clock.last = Clock.millis (e.clock + (a + b)) :=
    Nat.min_eq_left (Clock.millis_le_last _)
  rw [stopsShort_eq hfit] at hs
  have hsplit := Timeline.advanceTo_split hmid (by rw [hT]; exact hs)
  refine ⟨_, _, _, _, advancePlayback_eq (by omega), rfl, ?_,
    advancePlayback_eq (by simp only; omega), ?_⟩
  · rw [stopsShort_eq (by simp only; omega)]
    rw [hsplit] at hs
    simpa only [Nat.add_assoc] using hs
  · rw [advancePlayback_eq hfit, hsplit]
    simp only [Nat.add_assoc]

theorem advanceFrames_ok {e e₁ e₂ : Engine γ} {nanos : Nat} {rest : List Nat}
    {events more : List Event} (h1 : e.advancePlayback nanos = .ok (events, e₁))
    (h2 : e₁.advanceFrames rest = .ok (more, e₂)) :
    e.advanceFrames (nanos :: rest) = .ok (events ++ more, e₂) := by
  rw [advanceFrames, h1]
  change Except.bind (e₁.advanceFrames rest) _ = _
  rw [h2]; rfl

theorem advanceFrames_cons {e : Engine γ} (nanos : Nat) (rest : List Nat)
    (hfit : e.clock + (nanos :: rest).sum ≤ Clock.maxNanos)
    (hs : e.stopsShort (nanos :: rest).sum = false) :
    e.advanceFrames (nanos :: rest) = e.advancePlayback (nanos :: rest).sum := by
  induction rest generalizing e nanos with
  | nil =>
    simp only [List.sum_cons, List.sum_nil, Nat.add_zero] at hfit ⊢
    have h := advancePlayback_eq hfit
    rw [h, advanceFrames_ok h rfl, List.append_nil]
  | cons next rest ih =>
    rw [List.sum_cons] at hfit hs
    obtain ⟨events, more, e₁, e₂, h1, hclock, hs₁, h2, h⟩ := advancePlayback_add hfit hs
    have hrest := ih next (by rw [hclock]; omega) hs₁
    rw [h2] at hrest
    rw [List.sum_cons, h, advanceFrames_ok h1 hrest]

/-- **Playback does not depend on the frame rate.** Take frames whose sum the clock can hold and one
advance by that sum that does not stop short. The frames one after the other return the same events
in the same order, and end at the same engine: the clocks, the channels and the tones in the sink
are those of the one advance. -/
theorem frames_advance (e : Engine γ) (frames : List Nat) (hne : frames ≠ [])
    (hfit : e.clock + frames.sum ≤ Clock.maxNanos) (hs : e.stopsShort frames.sum = false) :
    ∃ events later, e.advancePlayback frames.sum = .ok (events, later) ∧
      e.advanceFrames frames = .ok (events, later) := by
  cases frames with
  | nil => exact absurd rfl hne
  | cons nanos rest =>
    refine ⟨_, _, advancePlayback_eq hfit, ?_⟩
    rw [advanceFrames_cons nanos rest hfit hs, advancePlayback_eq hfit]

/-- An engine that is about to play lines 1 and 2, with a recorder for its tones. -/
def twoLines : Engine Unit :=
  { Engine.new {} (.recorder #[]) () with
    graph := .pair
    timeline := (Timeline.new {} {} (.recorder #[])).after
      [.setGraph .pair, .bind .live (some (.live ⟨#[1, 2]⟩))] }

/-- Uneven frames, one of them empty and two shorter than a millisecond. -/
theorem twoLines_frames :
    let frames := [400000, 0, 300000, 499999999, 19300001]
    frames ≠ [] ∧ twoLines.clock + frames.sum ≤ Clock.maxNanos ∧
      twoLines.stopsShort frames.sum = false ∧
      ∃ events later, twoLines.advancePlayback frames.sum = .ok (events, later) ∧
        twoLines.advanceFrames frames = .ok (events, later) :=
  ⟨by decide, by decide, by decide,
    frames_advance twoLines _ (by decide) (by decide) (by decide)⟩

end Engine
end TracePlayback
