import TracePlayback.Engine
import TracePlayback.Proofs.Single.Side

/-!
# Frames that are no lengths of time

A frame is to move nothing if its length is no number, infinite, zero or negative. The layout looks
at the length itself. The pulses get it after it has been limited, and only look at how far it takes
them; by then a length that is no number has become the longest one, and a negative length has been
multiplied by the speed.

* `Scalar.smaller_of_nonpos`: the limit leaves a length that is not positive as it is.
* `PulseField.tick_smaller`: it takes any other bad length for the longest one.
* `PulseField.tick_of_nonpos`: a length that is not positive moves no pulse, unless it and the speed
  are both negative.
* `Engine.bad_frame`: so a bad frame moves no node, and it moves the pulses in two cases only.
* `Engine.bad_frame_moves`: in these it does.
-/
namespace TracePlayback

open Single

theorem LayoutSettings.not_maxDt_neg (s : LayoutSettings) : ¬ s.maxDt < 0 := by
  rw [not_neg_iff]
  obtain ⟨m, e, hm, hparts⟩ := (pos_iff (x := 1000) (by decide)).mp (by decide)
  exact side_div (side_ofNat s.maxDtMs) (side_ofNat 1000) (fun t h => nomatch hparts.symm.trans h)

namespace Scalar

theorem smaller_of_nonpos {x limit : Float32} (hx : x ≤ 0) (hlimit : ¬ limit < 0) :
    smaller x limit = x := by
  obtain ⟨hnan, hpos⟩ := nonpos_iff_not_pos.mp hx
  have hlt : ¬ limit < x := not_lt_of_nonpos hpos hlimit
  simp only [smaller, hnan, hlt, Bool.false_eq_true, if_false, ite_self]

end Scalar

namespace PulseField

theorem tick_of_not_finite (f : PulseField) {dt : Float32} (h : dt.isFinite = false)
    (speed : Float32) : f.tick dt speed = f := by
  simp [tick, isFinite_mul_eq_false speed h]

/-- A length that is not positive moves no pulse, unless it and the speed are both negative. -/
theorem tick_of_nonpos (f : PulseField) {dt speed : Float32} (hdt : dt ≤ 0)
    (h : dt < 0 → ¬ speed < 0) : f.tick dt speed = f := by
  have hpos : ¬ 0 < dt * speed := by
    refine not_pos_mul (nonpos_iff_not_pos.mp hdt).2 ?_
    by_cases hneg : dt < 0
    · exact Or.inr (h hneg)
    · exact Or.inl hneg
  unfold tick
  by_cases hfin : (dt * speed).isFinite = true
  · have hle : dt * speed ≤ 0 := nonpos_iff_not_pos.mpr ⟨isNaN_of_isFinite hfin, hpos⟩
    simp [hle]
  · simp [hfin]

/-- A length that is no number, or infinite and positive, counts as the limit. -/
theorem tick_smaller (f : PulseField) {dt : Float32} (hfin : dt.isFinite = false) (hdt : ¬ dt ≤ 0)
    (limit speed : Float32) : f.tick (Scalar.smaller dt limit) speed = f.tick limit speed := by
  by_cases hlimit : limit.isFinite = true
  · have hsmaller : Scalar.smaller dt limit = limit := by
      unfold Scalar.smaller
      split
      · rfl
      · rename_i hnan
        have hpos : 0 < dt := by
          by_contra h
          exact hdt (nonpos_iff_not_pos.mpr ⟨by simpa using hnan, h⟩)
        rw [isNaN_of_isFinite hlimit, if_neg Bool.false_ne_true,
          if_pos (lt_of_not_finite hfin hpos hlimit)]
    rw [hsmaller]
  · -- then the limit is not one: neither of the two is finite
    rw [Bool.not_eq_true] at hlimit
    rw [f.tick_of_not_finite hlimit]
    unfold Scalar.smaller
    split
    · exact f.tick_of_not_finite hlimit speed
    · split
      · exact f.tick_of_not_finite hfin speed
      · split
        · exact f.tick_of_not_finite hlimit speed
        · exact f.tick_of_not_finite hfin speed

end PulseField

namespace Engine

variable {γ : Type}

/-- **A bad frame.** Take a frame whose length is no number, infinite, zero or negative. It changes
nothing but the pulses. If its length is zero or negative, it moves no pulse either, unless it is
finite and both it and the speed are negative; then it moves them by their product. If its length is
no number or the positive infinity, the pulses move as in the longest frame. -/
theorem bad_frame (e : Engine γ) (dt : Float32) (h : dt.isFinite = false ∨ dt ≤ 0) :
    let u := e.tickFrame dt
    let speed := e.settings.pulses.speed
    u = { e with pulses := u.pulses } ∧
      (dt ≤ 0 → ¬ (dt.isFinite ∧ dt < 0 ∧ speed < 0) → u = e) ∧
      u.pulses = e.pulses.tick (if dt ≤ 0 then dt else e.settings.layout.maxDt) speed := by
  intro u speed
  have hlayout : Layout.step e.settings.layout e.layout dt = e.layout :=
    if_pos (h.imp_left (by simp))
  have hrest : u = { e with pulses := u.pulses } := by
    simp only [u, tickFrame, hlayout]
  have hpulses : u.pulses =
      e.pulses.tick (if dt ≤ 0 then dt else e.settings.layout.maxDt) speed := by
    change e.pulses.tick (Scalar.smaller dt e.settings.layout.maxDt) speed = _
    split
    · rename_i hdt
      rw [Scalar.smaller_of_nonpos hdt e.settings.layout.not_maxDt_neg]
    · rename_i hdt
      exact e.pulses.tick_smaller (h.resolve_right hdt) hdt _ _
  refine ⟨hrest, fun hdt hsigns => ?_, hpulses⟩
  have hstill : e.pulses.tick dt speed = e.pulses := by
    by_cases hfin : dt.isFinite = true
    · exact e.pulses.tick_of_nonpos hdt fun hneg hspeed => hsigns ⟨hfin, hneg, hspeed⟩
    · exact e.pulses.tick_of_not_finite (by simpa using hfin) speed
  rw [if_pos hdt, hstill] at hpulses
  rw [hrest, hpulses]

/-- Two nodes and a link between them. -/
def joined : GraphInput where
  nodes := [⟨.text "f", .function, "f", some 1⟩, ⟨.text "loop", .loop, "loop", some 2⟩]
  links := [⟨.text "f", .text "loop"⟩]
  error := none

def phases (e : Engine γ) : List Float32 := e.pulses.pulses.map Pulse.phase

/-- A frame of no length, and one that leads back. -/
theorem bad_frame_still :
    let e := ((new {} .silent (WordSource.mk [])).loadGraph joined).2
    ((0 : Float32) ≤ 0 ∧ e.tickFrame 0 = e) ∧ ((-1 : Float32) ≤ 0 ∧ e.tickFrame (-1) = e) := by
  intro e
  have hzero : (0 : Float32) ≤ 0 := by decide
  have hback : (-1 : Float32) ≤ 0 := by decide
  have hspeed : ¬ e.settings.pulses.speed < 0 := by
    change ¬ (0.8 : Float32) < 0
    decide
  refine ⟨⟨hzero, ?_⟩, hback, ?_⟩
  · exact (bad_frame e 0 (Or.inr hzero)).2.1 hzero fun h => absurd h.2.1 (by decide)
  · exact (bad_frame e (-1) (Or.inr hback)).2.1 hback fun h => hspeed h.2.2

/-- A frame whose length is no number moves a pulse, and so does one of infinite length; and one that
leads back, if the speed does as well. -/
theorem bad_frame_moves :
    let e := ((new {} .silent (WordSource.mk [])).loadGraph joined).2
    let back := ((new { pulses := { speed := -1 } } .silent (WordSource.mk [])).loadGraph joined).2
    ((0 / 0 : Float32).isFinite = false ∧ (e.tickFrame (0 / 0)).phases ≠ e.phases) ∧
      ((1 / 0 : Float32).isFinite = false ∧ (e.tickFrame (1 / 0)).phases ≠ e.phases) ∧
      ((-0.5 : Float32) ≤ 0 ∧ (back.tickFrame (-0.5)).phases ≠ back.phases) := by
  decide +kernel

end Engine
end TracePlayback
