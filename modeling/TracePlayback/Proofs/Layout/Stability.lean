import TracePlayback.Proofs.Layout.Retarget
import TracePlayback.Proofs.Layout.Scatter

/-!
# Layouts stay finite

Forces, velocities and ways can overflow or become no number at all, for many reasons. None of it
gets into a layout: what is kept of a tick is checked when it is kept.

* `moveBody_finite`: a body that is somewhere is somewhere after any tick, under any force.
* `scatter_finite`: a new node is put somewhere, whatever the spread.
* `perform_finite`: every operation keeps the bodies of a layout finite.
* `finite_after`: so do all runs, each operation with settings and random numbers of its own.
-/
namespace TracePlayback

/-- A body that is somewhere, and moves at some speed. -/
def Body.Finite (b : Body) : Prop := b.position.isFinite ∧ b.velocity.isFinite

namespace Layout

/-- An operation of a layout. -/
inductive Operation : Type 1 where
  | sync {γ : Type} [Generator γ] (graph : Graph) (spread : Float32) (random : γ)
  | setPosition (id : NodeId) (p : Vec3)
  | step (settings : LayoutSettings) (dt : Float32)

/-- The layout after an operation. A position that cannot be set is not set. -/
def perform (l : Layout) : Operation → Layout
  | @Operation.sync _ _ graph spread random => (l.sync graph spread random).1
  | .setPosition id p => (l.setPosition? id p).getD l
  | .step settings dt => step settings l dt

def after (l : Layout) (ops : List Operation) : Layout := ops.foldl perform l

/-- All bodies are finite. -/
def Finite (l : Layout) : Prop := ∀ b ∈ l.bodies, b.Finite

/-! ## Ticks -/

theorem zero_isFinite : Vec3.zero.isFinite := by decide

theorem guard_isFinite (p : Vec3) {fallback : Vec3} (h : fallback.isFinite) :
    (if p.isFinite then p else fallback).isFinite := by
  split
  · assumption
  · exact h

theorem moveBody_finite {b : Body} (h : b.Finite) (s : LayoutSettings) (dt : Float32)
    (force : Vec3) : (moveBody s dt force b).Finite :=
  ⟨guard_isFinite _ h.1, guard_isFinite _ zero_isFinite⟩

theorem step_finite {l : Layout} (h : l.Finite) (s : LayoutSettings) (dt : Float32) :
    (step s l dt).Finite := by
  unfold step
  split
  · exact h
  · intro b hb
    obtain ⟨i, hi, rfl⟩ := Array.mem_iff_getElem.mp hb
    rw [Array.getElem_zipWith]
    exact moveBody_finite (h _ (Array.getElem_mem _)) s _ _

/-! ## Setting a position -/

theorem setPosition?_finite {l m : Layout} (h : l.Finite) {id : NodeId} {p : Vec3}
    (hm : l.setPosition? id p = some m) : m.Finite := by
  unfold setPosition? at hm
  split at hm
  · rename_i hp
    obtain ⟨i, -, rfl⟩ := Option.map_eq_some_iff.mp hm
    intro b hb
    obtain ⟨j, hj, rfl⟩ := Array.mem_iff_getElem.mp hb
    rw [Array.getElem_modify]
    split
    · exact ⟨hp, zero_isFinite⟩
    · exact h _ (Array.getElem_mem _)
  · cases hm

/-! ## Retargeting -/

section
variable {γ : Type} [Generator γ]

theorem scatter_finite (spread : Float32) (g : γ) : (scatter (halfSpread spread) g).1.isFinite := by
  obtain ⟨hlow, hhigh, -, -⟩ := halfSpread_range spread
  simp [scatter, Vec3.isFinite, Random.uniform_isFinite hlow hhigh]

theorem place_finite {old : Layout} (h : old.Finite) (spread : Float32) (nodes : List Node)
    (g : γ) : ∀ b ∈ (old.place (halfSpread spread) nodes g).1, b.Finite := by
  intro b hb
  rw [place_eq_fill] at hb
  obtain ⟨id, hkept⟩ | ⟨n, g, rfl⟩ := Random.fill_cases hb
  · exact h _ (Array.mem_of_find?_eq_some hkept)
  · exact ⟨scatter_finite spread g, zero_isFinite⟩

theorem sync_finite {l : Layout} (h : l.Finite) (graph : Graph) (spread : Float32) (g : γ) :
    (l.sync graph spread g).1.Finite := by
  intro b hb
  exact place_finite h spread graph.nodes g b (by simpa [sync] using hb)

end

/-! ## Runs -/

theorem perform_finite {l : Layout} (h : l.Finite) (op : Operation) : (l.perform op).Finite := by
  cases op with
  | sync graph spread random => exact sync_finite h graph spread random
  | setPosition id p =>
    simp only [perform]
    cases hm : l.setPosition? id p with
    | none => exact h
    | some m => exact setPosition?_finite h hm
  | step settings dt => exact step_finite h settings dt

/-- **Layouts stay finite.** After every run from the empty layout every node is somewhere and moves
at some speed: no position and no velocity is infinite or no number, in any component. -/
theorem finite_after (ops : List Operation) : (empty.after ops).Finite :=
  List.foldlRecOn (motive := Finite) ops perform (by intro b hb; simp [empty] at hb)
    fun _ h op _ => perform_finite h op

end Layout
end TracePlayback
