import TracePlayback.Layout.Basic
import TracePlayback.Proofs.Single.Magnitude

/-!
# Where new nodes are scattered

New nodes are put at random into a cube around the origin, half of whose edge comes from the
settings, whatever single stands there.

* `halfSpread_below`, `halfSpread_pos`: half the edge is positive and less than `2 ^ 21`, also for a
  spread that is no number, infinite, negative or too small to be halved.
* `halfSpread_range`: so numbers can be drawn between its negative and itself.
* `Random.uniform_isFinite`: what is drawn between two finite bounds is finite.
-/
namespace TracePlayback

open Single

namespace Scalar

theorem smaller_eq {a b : Float32} (ha : a.isFinite) (hb : b.isFinite) :
    smaller a b = if b < a then b else a := by
  simp only [smaller, isNaN_of_isFinite ha, isNaN_of_isFinite hb, Bool.false_eq_true, if_false]

theorem larger_eq {a b : Float32} (ha : a.isFinite) (hb : b.isFinite) :
    larger a b = if a < b then b else a := by
  simp only [larger, isNaN_of_isFinite ha, isNaN_of_isFinite hb, Bool.false_eq_true, if_false]

end Scalar

namespace Layout

/-- The edge of the cube after it has been limited. -/
theorem limited_below (spread : Float32) :
    Below 20 (if spread.isFinite then Scalar.smaller spread.abs maxSpread
      else LayoutSettings.initialSpread {}) := by
  have hmax : Below 20 maxSpread := by decide
  split
  · rename_i h
    have habs : (spread.abs).isFinite := (below_abs (isFinite_iff.mp h)).isFinite
    rw [Scalar.smaller_eq habs hmax.isFinite]
    split
    · exact hmax
    · rename_i hle
      exact below_of_not_lt hmax habs (abs_nonneg h) hle
  · decide

/-- Half of it is the larger of two numbers. -/
theorem halfSpread_eq (spread : Float32) : ∃ half, Below 21 half ∧
    halfSpread spread = if half < Scalar.epsilon then Scalar.epsilon else half := by
  have hhalf : Below 0 0.5 := by decide
  have h := below_mul (limited_below spread) hhalf (by decide) (by decide)
  exact ⟨_, h, Scalar.larger_eq h.isFinite (by decide)⟩

theorem halfSpread_below (spread : Float32) : Below 21 (halfSpread spread) := by
  obtain ⟨half, hbelow, h⟩ := halfSpread_eq spread
  rw [h]
  split
  · decide
  · exact hbelow

theorem halfSpread_pos (spread : Float32) : 0 < halfSpread spread := by
  obtain ⟨half, hbelow, h⟩ := halfSpread_eq spread
  rw [h]
  split
  · decide
  · rename_i hle
    exact pos_of_not_lt hbelow.isFinite (by decide) (by decide) hle

/-- The bounds of a draw are finite and in order, and so is the width of the range. -/
theorem halfSpread_range (spread : Float32) :
    (-halfSpread spread).isFinite ∧ (halfSpread spread).isFinite ∧
      -halfSpread spread < halfSpread spread ∧
        (halfSpread spread - -halfSpread spread).isFinite := by
  have h := halfSpread_below spread
  exact ⟨(below_neg h).isFinite, h.isFinite, neg_lt_self h.isFinite (halfSpread_pos spread),
    (below_sub h (below_neg h) (by decide) (by decide)).isFinite⟩

end Layout

/-! ## Draws -/

namespace Random

variable {γ : Type} [Generator γ]

theorem uniform_cases (low high : Float32) (g : γ) :
    (uniform low high g).1 = low ∨
      (low ≤ (uniform low high g).1 ∧ (uniform low high g).1 < high) := by
  have h : ∀ (tries : Nat) (g : γ), (uniformWithin low high tries g).1 = low ∨
      (low ≤ (uniformWithin low high tries g).1 ∧ (uniformWithin low high tries g).1 < high) := by
    intro tries
    induction tries with
    | zero => exact fun _ => Or.inl rfl
    | succ tries ih =>
      intro g
      unfold uniformWithin
      simp only
      split
      · rename_i hx; exact Or.inr hx
      · exact ih _
  exact h 64 g

theorem uniform_isFinite {low high : Float32} (hlow : low.isFinite) (hhigh : high.isFinite)
    (g : γ) : (uniform low high g).1.isFinite := by
  rcases uniform_cases low high g with h | h
  · rw [h]; exact hlow
  · exact isFinite_of_between hlow hhigh h

end Random
end TracePlayback
