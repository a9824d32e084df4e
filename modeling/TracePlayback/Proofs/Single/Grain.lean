import TracePlayback.Proofs.Single.Side

/-!
# Singles as whole numbers of grains

Every finite single is a whole multiple of the least positive one, the grain; a one has `2 ^ 149` of
them. So what a single stands for can be told by an integer.

* `compare_eq`: finite singles are compared as their grains are.
* `lt_iff_grains`, `le_iff_grains`: the same for the comparisons of singles.
* `grains_lt`: what is below a power of two has fewer grains than that power.
-/
namespace TracePlayback.Single

open Float.Model (Format UnpackedFloat totalExponent)
open Float.Model.UnpackedFloat

/-- How many grains an unpacked number has; none if it is not finite. -/
def grainsOf : UnpackedFloat → Int
  | .finite s m e _ => s.apply (m * 2 ^ (e + 149).toNat : Nat)
  | _ => 0

/-- How many grains a single has. -/
def grains (x : Float32) : Int := grainsOf (parts x)

/-! ## Comparisons -/

/-- The larger exponent has the more grains: it needs all digits of its mantissa. -/
theorem mul_pow_lt_of_exponent_lt {m m' : Nat} {e e' : Int} (hlt : m < 2 ^ 24) (hge : -149 ≤ e)
    (hnormal : 2 ^ 23 ≤ m' ∨ e' = -149) (h : e < e') :
    m * 2 ^ (e + 149).toNat < m' * 2 ^ (e' + 149).toNat := by
  have hm' : 2 ^ 23 ≤ m' := by omega
  calc m * 2 ^ (e + 149).toNat < 2 ^ 24 * 2 ^ (e + 149).toNat :=
        Nat.mul_lt_mul_of_pos_right hlt (Nat.two_pow_pos _)
    _ = 2 ^ 23 * 2 ^ ((e + 149).toNat + 1) := by rw [← Nat.pow_add, ← Nat.pow_add]; congr 1; omega
    _ ≤ 2 ^ 23 * 2 ^ (e' + 149).toNat :=
        Nat.mul_le_mul_left _ (Nat.pow_le_pow_right (by decide) (by omega))
    _ ≤ m' * 2 ^ (e' + 149).toNat := Nat.mul_le_mul_right _ hm'

/-- Exponents first, then mantissas. -/
theorem then_compare_eq {m m' : Nat} {e e' : Int} (hlt : m < 2 ^ 24) (hge : -149 ≤ e)
    (hnormal : 2 ^ 23 ≤ m ∨ e = -149) (hlt' : m' < 2 ^ 24) (hge' : -149 ≤ e')
    (hnormal' : 2 ^ 23 ≤ m' ∨ e' = -149) :
    (compare e e').then (compare m m') =
      compare ((m * 2 ^ (e + 149).toNat : Nat) : Int) ((m' * 2 ^ (e' + 149).toNat : Nat) : Int) := by
  rcases Int.lt_trichotomy e e' with h | rfl | h
  · have hgrains := mul_pow_lt_of_exponent_lt hlt hge hnormal' h
    rw [compare_lt_iff_lt.mpr h, compare_lt_iff_lt.mpr (Int.ofNat_lt.mpr hgrains)]
    rfl
  · have hpos := Nat.two_pow_pos (e + 149).toNat
    have hself : compare e e = .eq := compare_eq_iff_eq.mpr rfl
    rw [hself, Ordering.eq_then]
    rcases Nat.lt_trichotomy m m' with h | rfl | h
    · rw [compare_lt_iff_lt.mpr h,
        compare_lt_iff_lt.mpr (Int.ofNat_lt.mpr (Nat.mul_lt_mul_of_pos_right h hpos))]
    · rw [compare_eq_iff_eq.mpr rfl, compare_eq_iff_eq.mpr rfl]
    · rw [compare_gt_iff_gt.mpr h,
        compare_gt_iff_gt.mpr (Int.ofNat_lt.mpr (Nat.mul_lt_mul_of_pos_right h hpos))]
  · have hgrains := mul_pow_lt_of_exponent_lt hlt' hge' hnormal h
    rw [compare_gt_iff_gt.mpr h, compare_gt_iff_gt.mpr (Int.ofNat_lt.mpr hgrains)]
    rfl

theorem grainsOf_positive {m : Nat} (e : Int) (hm : 0 < m) :
    0 < grainsOf (.finite .positive m e hm) :=
  Int.natCast_pos.mpr (Nat.mul_pos hm (Nat.two_pow_pos _))

theorem grainsOf_neg (u : UnpackedFloat) : grainsOf u.neg = -grainsOf u := by
  cases u with
  | finite s m e hm => cases s <;> simp [UnpackedFloat.neg, grainsOf, Sign.apply]
  | _ => rfl

theorem grainsOf_negative {m : Nat} (e : Int) (hm : 0 < m) :
    grainsOf (.finite .negative m e hm) < 0 := by
  have hpos := grainsOf_positive e hm
  have hneg := grainsOf_neg (.finite .positive m e hm)
  change grainsOf (.finite .negative m e hm) = _ at hneg
  omega

theorem compare_neg (a b : Int) : compare (-a) (-b) = compare b a := by
  simp [Int.compare_eq_ite_lt]

/-- Finite numbers are compared as their grains are. -/
theorem compare_eq {j k : Int} {u v : UnpackedFloat} (hu : Fits j u) (hv : Fits k v) :
    u.compare v = some (compare (grainsOf u) (grainsOf v)) := by
  cases u with
  | notANumber => exact hu.elim
  | infinity s => exact hu.elim
  | zero s =>
    cases v with
    | notANumber => exact hv.elim
    | infinity s' => exact hv.elim
    | zero s' => rfl
    | finite s' m' e' hm' =>
      cases s' with
      | positive => exact congrArg some (compare_lt_iff_lt.mpr (grainsOf_positive e' hm')).symm
      | negative => exact congrArg some (compare_gt_iff_gt.mpr (grainsOf_negative e' hm')).symm
  | finite s m e hm =>
    cases v with
    | notANumber => exact hv.elim
    | infinity s' => exact hv.elim
    | zero s' =>
      cases s with
      | positive => exact congrArg some (compare_gt_iff_gt.mpr (grainsOf_positive e hm)).symm
      | negative => exact congrArg some (compare_lt_iff_lt.mpr (grainsOf_negative e hm)).symm
    | finite s' m' e' hm' =>
      have hmagnitudes := then_compare_eq hu.1 hu.2.1 hu.2.2.1 hv.1 hv.2.1 hv.2.2.1
      cases s with
      | positive =>
        cases s' with
        | positive => exact congrArg some hmagnitudes
        | negative =>
          exact congrArg some (compare_gt_iff_gt.mpr
            (Int.lt_trans (grainsOf_negative e' hm') (grainsOf_positive e hm))).symm
      | negative =>
        cases s' with
        | positive =>
          exact congrArg some (compare_lt_iff_lt.mpr
            (Int.lt_trans (grainsOf_negative e hm) (grainsOf_positive e' hm'))).symm
        | negative =>
          -- the larger size is the lesser number
          refine congrArg some ?_
          rw [hmagnitudes, Int.compare_swap, ← compare_neg]
          rfl

variable {x y : Float32} {k : Int}

theorem lt_iff_grains (hx : x.isFinite) (hy : y.isFinite) : x < y ↔ grains x < grains y := by
  rw [lt_iff, compare_eq (isFinite_iff.mp hx) (isFinite_iff.mp hy), Option.some_inj,
    compare_lt_iff_lt]
  rfl

theorem le_iff_grains (hx : x.isFinite) (hy : y.isFinite) : x ≤ y ↔ grains x ≤ grains y := by
  rw [le_iff, compare_eq (isFinite_iff.mp hx) (isFinite_iff.mp hy)]
  exact Int.isLE_compare

theorem grains_zero : grains 0 = 0 := by rw [grains, parts_zero]; rfl

theorem grains_neg (hx : x.isFinite) : grains (-x) = -grains x := by
  rw [grains, grains, parts_neg hx, grainsOf_neg]

/-! ## Sizes -/

theorem totalExponent_le_iff_mul {m : Nat} (hm : 0 < m) {e : Int} (hge : -149 ≤ e)
    (hk : -149 ≤ k) :
    totalExponent m e ≤ k ↔ m * 2 ^ (e + 149).toNat < 2 ^ (k + 149).toNat := by
  rw [totalExponent_le_iff hm]
  rcases Int.lt_or_le k e with hlt | hle
  · -- one grain of that exponent is too much already
    have hpow : 2 ^ (k + 149).toNat ≤ 2 ^ (e + 149).toNat :=
      Nat.pow_le_pow_right (by decide) (by omega)
    have hself : 2 ^ (e + 149).toNat ≤ m * 2 ^ (e + 149).toNat := Nat.le_mul_of_pos_left _ hm
    rw [show (k - e).toNat = 0 by omega]
    omega
  · rw [show (k + 149).toNat = (k - e).toNat + (e + 149).toNat by omega, Nat.pow_add,
      Nat.mul_lt_mul_right (Nat.two_pow_pos _)]

/-- What is below a power of two has fewer grains than that power, and the other way round. -/
theorem fits_iff_grainsOf {u : UnpackedFloat} (hu : Fits 128 u) (hk : -149 ≤ k) :
    Fits k u ↔ (grainsOf u).natAbs < 2 ^ (k + 149).toNat := by
  cases u with
  | notANumber => exact hu.elim
  | infinity s => exact hu.elim
  | zero s => simp [Fits, grainsOf]
  | finite s m e hm =>
    have hsize : (grainsOf (.finite s m e hm)).natAbs = m * 2 ^ (e + 149).toNat := by
      cases s <;> simp only [grainsOf, Sign.apply, Int.natAbs_neg, Int.natAbs_natCast]
    obtain ⟨hlt, hge, hnormal, -⟩ := hu
    rw [hsize, ← totalExponent_le_iff_mul hm hge hk]
    exact ⟨fun h => h.2.2.2, fun h => ⟨hlt, hge, hnormal, h⟩⟩

theorem below_iff_grains (hx : x.isFinite) (hk : -149 ≤ k) :
    Below k x ↔ (grains x).natAbs < 2 ^ (k + 149).toNat :=
  fits_iff_grainsOf (isFinite_iff.mp hx) hk

end TracePlayback.Single
