import TracePlayback.Proofs.Layout.Scatter
import TracePlayback.Proofs.Random.Fill

/-!
# Draws in a row

* `uniform_range`, `draws_range`: numbers that are drawn lie in the range asked for.
* `drawAll_eq_draws`: items that take equally many numbers each take them in order.
-/
namespace TracePlayback.Random

variable {ι α γ : Type} [Generator γ]

/-- So many draws of `[low, high)`. -/
def draws (low high : Float32) : Nat → γ → List Float32 × γ
  | 0, g => ([], g)
  | n + 1, g =>
    let (x, g) := uniform low high g
    let (xs, g) := draws low high n g
    (x :: xs, g)

theorem draws_add (low high : Float32) (m n : Nat) (g : γ) :
    draws low high (m + n) g =
      ((draws low high m g).1 ++ (draws low high n (draws low high m g).2).1,
        (draws low high n (draws low high m g).2).2) := by
  induction m generalizing g with
  | zero => simp [draws]
  | succ m ih => simp only [Nat.succ_add, draws, ih, List.cons_append]

/-- A draw that was repeated too often is the low end, so that must lie in the range. -/
theorem uniform_range {low high : Float32} (hlow : low ≤ low) (h : low < high) (g : γ) :
    low ≤ (uniform low high g).1 ∧ (uniform low high g).1 < high := by
  rcases uniform_cases low high g with hend | hbetween
  · rw [hend]
    exact ⟨hlow, h⟩
  · exact hbetween

theorem draws_range {low high : Float32} (hlow : low ≤ low) (h : low < high) (n : Nat) (g : γ) :
    ∀ x ∈ (draws low high n g).1, low ≤ x ∧ x < high := by
  induction n generalizing g with
  | zero => intro x hx; cases hx
  | succ n ih => exact List.forall_mem_cons.mpr ⟨uniform_range hlow h g, ih _⟩

theorem drawAll_eq_draws {low high : Float32} {k : Nat} {draw : ι → γ → α × γ}
    {values : α → List Float32}
    (h : ∀ i g, draws low high k g = (values (draw i g).1, (draw i g).2)) (items : List ι) (g : γ) :
    draws low high (items.length * k) g =
      ((drawAll draw items g).1.flatMap values, (drawAll draw items g).2) := by
  induction items generalizing g with
  | nil => simp [draws, drawAll]
  | cons i rest ih =>
    rw [List.length_cons, Nat.succ_mul, Nat.add_comm, draws_add, h i, ih]
    rfl

end TracePlayback.Random
