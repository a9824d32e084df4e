import TracePlayback.Proofs.Outcome
import TracePlayback.Random.Basic
import TracePlayback.Scalar

/-!
# Steps that can fault

Reading and writing at an index, drawing from a range and clamping to bounds ask something of their
arguments. Elsewhere in the library they answer something in any case; here they fault if what they
ask for is not there, and so does a clock that cannot hold its time.

* `read_some`, `modify_eq`, `draw_eq`, `clamp_eq`: what has to be shown so that a step does not
  fault.
* `foldlM_ok`, `foldlM_eq`: a loop does not fault if no step of it does.
-/
namespace TracePlayback

/-- Why an operation breaks off. -/
inductive Fault where
  | indexOutOfRange
  /-- A range to draw from is empty, or its bounds or its width are not finite. -/
  | badRange
  | unorderedBounds
  | clockOverflow
  deriving DecidableEq, Repr

namespace Guard

variable {α β γ : Type}

@[simp]
theorem pure_eq_ok (a : α) : (pure a : Except Fault α) = .ok a := rfl

/-- What has been found at an index. -/
def read : Option α → Except Fault α
  | some a => .ok a
  | none => .error .indexOutOfRange

/-- Changes what is at an index. -/
def modify (xs : Array α) (i : Nat) (f : α → α) : Except Fault (Array α) :=
  if i < xs.size then .ok (xs.modify i f) else .error .indexOutOfRange

/-- Draws a number of `[low, high)`. -/
def draw [Generator γ] (low high : Float32) (g : γ) : Except Fault (Float32 × γ) :=
  if low.isFinite ∧ high.isFinite ∧ low < high ∧ (high - low).isFinite then
    .ok (Random.uniform low high g)
  else .error .badRange

/-- The nearest value between `low` and `high`. -/
def clamp (low high x : Float32) : Except Fault Float32 :=
  if low ≤ high then .ok (Scalar.clamp low high x) else .error .unorderedBounds

@[simp]
theorem read_some (a : α) : read (some a) = .ok a := rfl

theorem modify_eq {xs : Array α} {i : Nat} (h : i < xs.size) (f : α → α) :
    modify xs i f = .ok (xs.modify i f) := if_pos h

theorem draw_eq [Generator γ] {low high : Float32}
    (h : low.isFinite ∧ high.isFinite ∧ low < high ∧ (high - low).isFinite) (g : γ) :
    draw low high g = .ok (Random.uniform low high g) := if_pos h

theorem clamp_eq {low high : Float32} (h : low ≤ high) (x : Float32) :
    clamp low high x = .ok (Scalar.clamp low high x) := if_pos h

/-- A loop whose steps do not fault keeps to a plain loop on something else, if its steps do. -/
theorem foldlM_ok {σ : Type} {R : β → σ → Prop} {f : β → α → Except Fault β} {g : σ → α → σ}
    (xs : List α) (hstep : ∀ a ∈ xs, ∀ b c, R b c → ∃ b', f b a = .ok b' ∧ R b' (g c a)) {b : β}
    {c : σ} (h : R b c) : ∃ b', xs.foldlM f b = .ok b' ∧ R b' (xs.foldl g c) := by
  induction xs generalizing b c with
  | nil => exact ⟨b, rfl, h⟩
  | cons a rest ih =>
    obtain ⟨b', hok, hnext⟩ := hstep a List.mem_cons_self b c h
    rw [List.foldlM_cons, hok, ok_bind, List.foldl_cons]
    exact ih (fun a ha => hstep a (List.mem_cons_of_mem _ ha)) hnext

/-- A loop that does, step by step and as long as `P` holds, what a plain loop does. -/
theorem foldlM_eq {P : β → Prop} {f : β → α → Except Fault β} {g : β → α → β} {xs : List α}
    (hstep : ∀ a ∈ xs, ∀ b, P b → f b a = .ok (g b a) ∧ P (g b a)) {b : β} (h : P b) :
    xs.foldlM f b = .ok (xs.foldl g b) := by
  obtain ⟨_, hok, rfl, -⟩ := foldlM_ok (R := fun b c => b = c ∧ P b) (g := g) xs (by
    rintro a ha b _ ⟨rfl, hb⟩
    obtain ⟨hok, hnext⟩ := hstep a ha b hb
    exact ⟨_, hok, rfl, hnext⟩) ⟨rfl, h⟩
  exact hok

end Guard
end TracePlayback
