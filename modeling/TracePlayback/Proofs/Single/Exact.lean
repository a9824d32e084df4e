import TracePlayback.Proofs.Single.Grain

/-!
# What rounding leaves as it is

A result is rounded when it has more digits than the format can write. Often it has not, or those
that are dropped are too few to count.

* `roundWithAccuracy_eq`: digits are dropped without rounding up if they come to less than half.
* `round_eq`: nothing is dropped of a number that the format can write.
* `add_of_negligible`: a fraction is lost in a sum with a number that has none of its digits behind
  the point.
* `add_isFinite`: so a fraction and a number of any size have a sum.
-/
namespace TracePlayback.Single

open Float.Model (Format UnpackedFloat totalExponent)
open Float.Model.UnpackedFloat

/-! ## Digits that are dropped -/

theorem roundBit_shiftRight (em : ExtendedMantissa) (n : Nat) :
    (em >>> (n + 1)).roundBit = (em.mantissa / 2 ^ n % 2 != 0) := by
  rw [← shiftRight_mantissa]
  rfl

/-- Less than half of the last digit is dropped. -/
theorem roundedMantissa_eq {em : ExtendedMantissa} (h : em.roundBit = false) :
    em.roundedMantissa = em.mantissa := by
  obtain ⟨m, r, s⟩ := em
  obtain rfl : r = false := h
  cases s <;> rfl

theorem roundedMantissa_shiftToTargetExponent {m : Nat} {e : Int}
    (h : 2 * (m % 2 ^ surplus m e) < 2 ^ surplus m e) :
    (shiftToTargetExponent Format.binary32 m e .exact).1.roundedMantissa = m / 2 ^ surplus m e := by
  have hbit : (shiftToTargetExponent Format.binary32 m e .exact).1.roundBit = false := by
    have hem : (shiftToTargetExponent Format.binary32 m e .exact).1 =
        (⟨m, false, false⟩ : ExtendedMantissa) >>> surplus m e := by
      unfold shiftToTargetExponent shiftToExponent surplus
      simp only [targetExponent_eq]
      rfl
    rw [hem]
    cases hn : surplus m e with
    | zero => rfl
    | succ n =>
      rw [hn, Nat.pow_succ] at h
      rw [roundBit_shiftRight, bne_eq_false_iff_eq]
      have hmod : m % (2 ^ n * 2) / 2 ^ n = m / 2 ^ n % 2 := Nat.mod_mul_right_div_self ..
      rw [← hmod]
      exact Nat.div_eq_of_lt (by omega)
  rw [roundedMantissa_eq hbit, (shiftToTargetExponent_eq m e).1]

/-- Digits that are dropped at the end of a mantissa do not move its first digit. -/
theorem totalExponent_div {m n : Nat} (hpos : 0 < m / 2 ^ n) (e : Int) :
    totalExponent (m / 2 ^ n) (e + n) = totalExponent m e := by
  have hm : m ≠ 0 := by
    rintro rfl
    simp at hpos
  have hlo : (m / 2 ^ n).log2 + n ≤ m.log2 := by
    rw [Nat.le_log2 hm, Nat.pow_add, ← Nat.le_div_iff_mul_le (Nat.two_pow_pos n)]
    exact Nat.log2_self_le hpos.ne'
  have hhi : m.log2 < (m / 2 ^ n).log2 + 1 + n := by
    rw [Nat.log2_lt hm, Nat.pow_add, ← Nat.div_lt_iff_lt_mul (Nat.two_pow_pos n)]
    exact Nat.lt_log2_self
  unfold totalExponent
  omega

/-- What is left after the surplus has been dropped has none. -/
theorem surplus_div {m : Nat} {e : Int} (hpos : 0 < m / 2 ^ surplus m e) :
    surplus (m / 2 ^ surplus m e) (e + surplus m e) = 0 := by
  have ht := totalExponent_div hpos e
  unfold surplus at ht ⊢
  rw [ht]
  omega

/-- A number whose surplus is dropped without rounding up. -/
theorem roundWithAccuracy_eq (s : Sign) {m : Nat} {e : Int} (hpos : 0 < m / 2 ^ surplus m e)
    (h : 2 * (m % 2 ^ surplus m e) < 2 ^ surplus m e) :
    roundWithAccuracy Format.binary32 s m e .exact =
      .finite s (m / 2 ^ surplus m e) (e + surplus m e) hpos := by
  have hrounded := roundedMantissa_shiftToTargetExponent h
  have hexp := (shiftToTargetExponent_eq m e).2
  obtain ⟨hmant, hlast⟩ := shiftToTargetExponent_eq (m / 2 ^ surplus m e) (e + surplus m e)
  rw [surplus_div hpos, Nat.pow_zero, Nat.div_one] at hmant
  rw [surplus_div hpos, Int.natCast_zero, Int.add_zero] at hlast
  unfold roundWithAccuracy
  simp only [hrounded, hexp]
  rw [dif_neg (by rw [hmant]; exact hpos.ne')]
  exact Binary.finite_congr hmant hlast

/-- A number that has no digits to spare is brought to no other exponent. -/
theorem round_of_le (s : Sign) {m : Nat} {e : Int} (he : e ≤ max (totalExponent m e - 24) (-149)) :
    round Format.binary32 s m e = roundWithAccuracy Format.binary32 s m e .exact := by
  unfold UnpackedFloat.round decreaseExponent
  simp only [targetExponent_eq]
  rw [show (e - max (totalExponent m e - 24) (-149)).toNat = 0 by omega, Nat.shiftLeft_zero,
    Int.natCast_zero, Int.sub_zero]

theorem normalize_of_pos (s : Sign) {n : Nat} (hn : 0 < n) (e : Int) :
    UnpackedFloat.normalize Format.binary32 n e s = round Format.binary32 .positive n e := by
  have hgt : compare (n : Int) 0 = .gt := compare_gt_iff_gt.mpr (Int.natCast_pos.mpr hn)
  simp only [UnpackedFloat.normalize, hgt, Int.toNat_natCast]

/-! ## Numbers that need no rounding -/

/-- How many zeros a mantissa gets at its end when it is brought to the exponent of the format. -/
def padding (m : Nat) (e : Int) : Nat := (e - max (totalExponent m e - 24) (-149)).toNat

theorem round_eq_roundWithAccuracy (s : Sign) (m : Nat) (e : Int) :
    round Format.binary32 s m e =
      roundWithAccuracy Format.binary32 s (m <<< padding m e) (e - padding m e) .exact := by
  unfold UnpackedFloat.round decreaseExponent padding
  simp only [targetExponent_eq]

theorem round_eq (s : Sign) {m : Nat} {e : Int} (hm : 0 < m) (hlt : m < 2 ^ 24) (hge : -149 ≤ e) :
    round Format.binary32 s m e =
      .finite s (m <<< padding m e) (e - padding m e) (shiftLeft_pos hm _) := by
  have hlog : m.log2 < 24 := (Nat.log2_lt hm.ne').mpr hlt
  have ht := totalExponent_shiftLeft hm e (padding m e)
  have hnone : surplus (m <<< padding m e) (e - padding m e) = 0 := by
    unfold surplus
    rw [ht]
    unfold padding totalExponent
    omega
  have hpos : 0 < (m <<< padding m e) / 2 ^ surplus (m <<< padding m e) (e - padding m e) := by
    rw [hnone, Nat.pow_zero, Nat.div_one]
    exact shiftLeft_pos hm _
  rw [round_eq_roundWithAccuracy, roundWithAccuracy_eq s hpos (by rw [hnone]; simp [Nat.mod_one])]
  exact Binary.finite_congr (by rw [hnone]; simp) (by rw [hnone]; simp)

/-! ## Sums -/

variable {x y : Float32}

theorem add_eq_sub_neg (u v : UnpackedFloat) :
    UnpackedFloat.add Format.binary32 u v = UnpackedFloat.sub Format.binary32 u v.neg := by
  cases u with
  | notANumber => rfl
  | infinity s =>
    cases v with
    | infinity s' => cases s <;> cases s' <;> rfl
    | _ => rfl
  | zero s =>
    cases v with
    | notANumber => rfl
    | infinity s' => cases s' <;> rfl
    | zero s' => cases s <;> cases s' <;> rfl
    | finite s' m' e' hm' => cases s' <;> rfl
  | finite s m e hm =>
    cases v with
    | notANumber => rfl
    | infinity s' => cases s' <;> rfl
    | zero s' => rfl
    | finite s' m' e' hm' =>
      have hsign : ∀ n : Int, s'.apply n = -(-s').apply n := by
        cases s' with
        | positive => exact fun n => (Int.neg_neg n).symm
        | negative => exact fun n => rfl
      simp only [UnpackedFloat.add, UnpackedFloat.sub, UnpackedFloat.neg, hsign, Int.sub_eq_add_neg]

theorem fits_add {k : Int} {u v : UnpackedFloat} (hu : Fits k u) (hv : Fits k v) (hk : -149 ≤ k) :
    Fits (k + 2) (UnpackedFloat.add Format.binary32 u v) := by
  rw [add_eq_sub_neg]
  exact fits_sub hu (fits_neg hv) hk

theorem parts_add {k : Int} (hx : Below k x) (hy : Below k y) (hlo : -149 ≤ k) (hhi : k < 127) :
    parts (x + y) = UnpackedFloat.add Format.binary32 (parts x) (parts y) :=
  unpack_pack ((fits_add hx hy hlo).mono (by omega))

theorem below_add {k : Int} (hx : Below k x) (hy : Below k y) (hlo : -149 ≤ k) (hhi : k < 127) :
    Below (k + 2) (x + y) := by
  rw [Below, parts_add hx hy hlo hhi]
  exact fits_add hx hy hlo

/-- Less than a quarter of the last digit of a number is lost when it is added. -/
theorem add_of_negligible {m m' : Nat} {e e' : Int} (hm : 0 < m) (hlo : 2 ^ 23 ≤ m)
    (hhi : m < 2 ^ 24) (he : 2 ≤ e) (hm' : 0 < m') (hsmall : totalExponent m' e' ≤ 0) :
    UnpackedFloat.add Format.binary32 (.finite .positive m' e' hm') (.finite .positive m e hm) =
      .finite .positive m e hm := by
  have he' : e' ≤ -1 := by
    unfold totalExponent at hsmall
    omega
  have hlost : 4 * m' < 2 ^ (e - e').toNat := by
    have h4 : 2 ^ ((0 - e').toNat + 2) ≤ 2 ^ (e - e').toNat :=
      Nat.pow_le_pow_right (by decide) (by omega)
    rw [totalExponent_le_iff hm'] at hsmall
    rw [Nat.pow_add] at h4
    omega
  obtain ⟨M, hM⟩ : ∃ M, M = m' + m * 2 ^ (e - e').toNat := ⟨_, rfl⟩
  have hpow := Nat.two_pow_pos (e - e').toNat
  have hdiv : M / 2 ^ (e - e').toNat = m := by
    rw [hM, Nat.add_mul_div_right _ _ hpow, Nat.div_eq_of_lt (by omega), Nat.zero_add]
  have hmod : M % 2 ^ (e - e').toNat = m' := by
    rw [hM, Nat.add_mul_mod_self_right, Nat.mod_eq_of_lt (by omega)]
  have ht : totalExponent M e' = 24 + e := by
    have h := totalExponent_div (hdiv.symm ▸ hm) e'
    rw [hdiv, show e' + ((e - e').toNat : Int) = e by omega] at h
    rw [← h]
    unfold totalExponent
    rw [log2_eq hlo hhi]
    omega
  have hsurplus : surplus M e' = (e - e').toNat := by
    unfold surplus
    omega
  have hmin : min e' e = e' := by omega
  have hsum : UnpackedFloat.add Format.binary32 (.finite .positive m' e' hm')
      (.finite .positive m e hm) = UnpackedFloat.normalize Format.binary32 M e' .positive := by
    rw [hM, Int.natCast_add, ← Nat.shiftLeft_eq]
    simp only [UnpackedFloat.add, decreaseExponent, Sign.apply, hmin, Int.sub_self, Int.toNat_zero,
      Nat.shiftLeft_zero]
  have hpos : 0 < M / 2 ^ surplus M e' := by rw [hsurplus, hdiv]; exact hm
  rw [hsum, normalize_of_pos _ (by omega), round_of_le _ (by omega),
    roundWithAccuracy_eq _ hpos (by rw [hsurplus, hmod]; omega)]
  exact Binary.finite_congr (by rw [hsurplus, hdiv]) (by rw [hsurplus]; omega)

/-- What is added to a number on one side does not lead beyond zero. -/
theorem sided_add {u v : UnpackedFloat} (hu : Sided .positive u) (hv : Sided .positive v) :
    Sided .positive (UnpackedFloat.add Format.binary32 u v) := by
  cases u with
  | notANumber => trivial
  | infinity s =>
    obtain rfl : s = .positive := hu
    cases v with
    | notANumber => trivial
    | infinity s' => obtain rfl : s' = .positive := hv; rfl
    | _ => rfl
  | zero s =>
    cases v with
    | notANumber => trivial
    | infinity s' => exact hv
    | zero s' => cases s <;> cases s' <;> trivial
    | finite s' m' e' hm' => exact hv
  | finite s m e hm =>
    obtain rfl : s = .positive := hu
    cases v with
    | notANumber => trivial
    | infinity s' => exact hv
    | zero s' => rfl
    | finite s' m' e' hm' =>
      obtain rfl : s' = .positive := hv
      exact sided_normalize (_ + _) _

theorem nonneg_iff_grains (hx : x.isFinite) : 0 ≤ x ↔ 0 ≤ grains x := by
  rw [le_iff_grains (by decide) hx, grains_zero]

theorem grains_one : grains 1 = 2 ^ 149 := by decide +kernel

theorem below_one {p : Float32} (hp : p.isFinite) (h0 : 0 ≤ p) (h1 : p < 1) : Below 0 p := by
  rw [nonneg_iff_grains hp] at h0
  rw [lt_iff_grains hp (by decide), grains_one] at h1
  rw [below_iff_grains hp (by decide), show (0 + 149 : Int).toNat = 149 by decide]
  omega

/-- A fraction and a number of any size have a sum. -/
theorem fits_add_fraction {u v : UnpackedFloat} (hu : Fits 0 u) (hside : Sided .positive u)
    (hv : Fits 128 v) (hpos : Sided .positive v) :
    Fits 128 (UnpackedFloat.add Format.binary32 u v) := by
  by_cases hsmall : Fits 126 v
  · exact fits_add (hu.mono (by decide)) hsmall (by decide)
  cases v with
  | notANumber => exact hv.elim
  | infinity s => exact hv.elim
  | zero s => exact absurd trivial hsmall
  | finite s m e hm =>
    obtain rfl : s = .positive := hpos
    obtain ⟨hlt, hge, hnormal, hlarge⟩ := hv
    have hlog : m.log2 < 24 := (Nat.log2_lt hm.ne').mpr hlt
    have he : 2 ≤ e := by
      by_contra hlow
      refine hsmall ⟨hlt, hge, hnormal, ?_⟩
      unfold totalExponent
      omega
    cases u with
    | notANumber => exact hu.elim
    | infinity s => exact hu.elim
    | zero s => exact ⟨hlt, hge, hnormal, hlarge⟩
    | finite s m' e' hm' =>
      obtain rfl : s = .positive := hside
      rw [add_of_negligible hm (by omega) hlt he hm' hu.2.2.2]
      exact ⟨hlt, hge, hnormal, hlarge⟩

theorem side_of_nonneg (hx : x.isFinite) (h : 0 ≤ x) : Side .positive x := by
  rw [← not_neg_iff, lt_iff_grains hx (by decide), grains_zero]
  rw [nonneg_iff_grains hx] at h
  omega

/-- The sum of a fraction and a number that is not negative, and on which side it is. -/
theorem add_isFinite {p a : Float32} (hp : p.isFinite) (h0 : 0 ≤ p) (h1 : p < 1) (ha : a.isFinite)
    (ha0 : 0 ≤ a) : (p + a).isFinite ∧ 0 ≤ p + a := by
  have hpside := side_of_nonneg hp h0
  have haside := side_of_nonneg ha ha0
  have hfits := fits_add_fraction (below_one hp h0 h1) hpside (isFinite_iff.mp ha) haside
  have hfin : (p + a).isFinite := by
    rw [isFinite_iff, Below, show parts (p + a) = _ from unpack_pack hfits]
    exact hfits
  refine ⟨hfin, ?_⟩
  have hside : ¬ p + a < 0 := not_neg_iff.mpr (sided_unpack_pack (sided_add hpside haside))
  rw [lt_iff_grains hfin (by decide), grains_zero] at hside
  rw [nonneg_iff_grains hfin]
  omega

end TracePlayback.Single
