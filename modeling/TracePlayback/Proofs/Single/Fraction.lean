import TracePlayback.Proofs.Single.Order
import TracePlayback.Scalar

/-!
# What is left of a number without its whole part

The whole part of a number below `2 ^ 23` is found by a conversion to a word and back, and taken
away by a subtraction. Neither of them rounds: the word has at most 24 digits, and the difference
has no more digits behind the point than the number itself.

* `toNat_toUInt32`: the conversion drops the digits behind the point.
* `parts_toFloat32`: a word of 24 digits is converted without loss.
* `grains_fract`: so the remainder has the grains that are left of a whole number of ones.
* `fract_range`: it lies from zero up to, but not including, one.
-/
namespace TracePlayback.Single

open Float.Model (Format UnpackedFloat totalExponent)
open Float.Model.UnpackedFloat

variable {x : Float32} {m : Nat} {e : Int}

/-! ## Whole parts -/

theorem roundToInt_eq (m : Nat) {e : Int} (he : e ≤ 0) :
    roundToInt .positive m e = (m / 2 ^ (-e).toNat : Nat) := by
  have hnone : e.toNat = 0 := by omega
  unfold roundToInt decreaseExponent shiftToExponent
  simp only [Int.sub_zero, Int.zero_sub, shiftRight_mantissa, hnone, Nat.shiftLeft_zero,
    Int.natCast_zero]
  rfl

theorem toNat_toUInt32 {hm : 0 < m} (hparts : parts x = .finite .positive m e hm)
    (hlt : m < 2 ^ 24) (he : e ≤ 0) : x.toUInt32.toNat = m / 2 ^ (-e).toNat := by
  have hword : x.toUInt32 = UInt32.ofNatClamp (roundToInt .positive m e).toNat := by
    change UInt32.ofNatClamp ((parts x).toInt 0 (UInt32.size - 1)).toNat = _
    rw [hparts]
    rfl
  have hsmall : m / 2 ^ (-e).toNat < UInt32.size :=
    Nat.lt_of_le_of_lt (Nat.div_le_self _ _) (Nat.lt_trans hlt (by decide))
  rw [hword, roundToInt_eq m he, Int.toNat_natCast, UInt32.ofNatClamp, dif_pos hsmall]
  rfl

/-- A word that is a whole part is written with the digits that the number has. -/
theorem parts_toFloat32 {n : UInt32} (hn : 0 < n.toNat) (hlt : n.toNat < 2 ^ 24) :
    parts n.toFloat32 = .finite .positive (n.toNat <<< padding n.toNat 0)
      (0 - padding n.toNat 0) (shiftLeft_pos hn _) := by
  have hround := round_eq .positive hn hlt (by decide : (-149 : Int) ≤ 0)
  have hfits : Fits 128 (round Format.binary32 .positive n.toNat 0) :=
    (fits_round .positive hn ((totalExponent_le_iff hn 0 24).mpr hlt) (by decide)).mono (by decide)
  change (Float32.Model.pack (UnpackedFloat.normalize Format.binary32 n.toNat 0 .positive)).unpack = _
  rw [normalize_of_pos _ hn, unpack_pack hfits, hround]

/-! ## What is left -/

/-- From `2 ^ 23` on all digits stand before the point, and below it the last one stands behind. -/
theorem large_iff {hm : 0 < m} (hx : x.isFinite) (hparts : parts x = .finite .positive m e hm) :
    8388608 ≤ x ↔ 0 ≤ e := by
  have hlarge : grains 8388608 = 2 ^ 172 := by decide +kernel
  have hgrains : grains x = (m * 2 ^ (e + 149).toNat : Nat) := by rw [grains, hparts]; rfl
  rw [le_iff_grains (by decide) hx, hlarge, hgrains]
  rw [isFinite_iff, Below, hparts] at hx
  obtain ⟨hlt, hge, hnormal, -⟩ := hx
  constructor
  · intro h
    by_contra hneg
    have hpow : 2 ^ (e + 149).toNat ≤ 2 ^ 148 := Nat.pow_le_pow_right (by decide) (by omega)
    have hmul : m * 2 ^ (e + 149).toNat < 2 ^ 24 * 2 ^ 148 :=
      Nat.mul_lt_mul_of_lt_of_le hlt hpow (by decide)
    omega
  · intro h
    have hpow : 2 ^ 149 ≤ 2 ^ (e + 149).toNat := Nat.pow_le_pow_right (by decide) (by omega)
    have hmul : 2 ^ 23 * 2 ^ 149 ≤ m * 2 ^ (e + 149).toNat := Nat.mul_le_mul (by omega) hpow
    omega

theorem grainsOf_normalize {r : Nat} (hlt : r < 2 ^ 24) (hge : -149 ≤ e) (he : e ≤ 0) :
    Fits 128 (UnpackedFloat.normalize Format.binary32 r e .positive) ∧
      grainsOf (UnpackedFloat.normalize Format.binary32 r e .positive) =
        (r * 2 ^ (e + 149).toNat : Nat) := by
  rcases Nat.eq_zero_or_pos r with rfl | hr
  · rw [Nat.zero_mul]
    exact ⟨trivial, rfl⟩
  · have hsmall : totalExponent r e ≤ 24 :=
      (totalExponent_le_iff hr e 24).mpr
        (Nat.lt_of_lt_of_le hlt (Nat.pow_le_pow_right (by decide) (by omega)))
    refine ⟨?_, (rounds_normalize r e .positive).eq (writable_mul_pow hlt.le _) ?_⟩
    · rw [normalize_of_pos _ hr]
      exact (fits_round _ hr hsmall (by decide)).mono (by decide)
    · rw [zpow_grains hge]
      push_cast
      rfl

/-- The whole part is taken away without rounding. -/
theorem grainsOf_sub_whole {hm : 0 < m} (hx : x.isFinite)
    (hparts : parts x = .finite .positive m e hm) (he : e < 0) :
    Fits 128 (UnpackedFloat.sub Format.binary32 (parts x) (parts x.toUInt32.toFloat32)) ∧
      grainsOf (UnpackedFloat.sub Format.binary32 (parts x) (parts x.toUInt32.toFloat32)) =
        (m % 2 ^ (-e).toNat * 2 ^ (e + 149).toNat : Nat) := by
  have hfits := isFinite_iff.mp hx
  rw [Below, hparts] at hfits
  obtain ⟨hlt, hge, hnormal, -⟩ := id hfits
  have hword := toNat_toUInt32 hparts hlt he.le
  rcases Nat.eq_zero_or_pos (m / 2 ^ (-e).toNat) with hzero | hpos
  · -- there is no whole part, and nothing is taken away
    have hword0 : x.toUInt32 = 0 := UInt32.toNat_inj.mp (hword.trans hzero)
    have hmod : m % 2 ^ (-e).toNat = m :=
      Nat.mod_eq_of_lt ((Nat.div_eq_zero_iff.mp hzero).resolve_left (Nat.two_pow_pos _).ne')
    rw [hword0, hparts, hmod]
    exact ⟨hfits, rfl⟩
  · have hlog : (m / 2 ^ (-e).toNat).log2 + 1 = m.log2 + 1 + e := by
      have h := totalExponent_div hpos e
      unfold totalExponent at h
      omega
    have hlog' : m.log2 = 23 := by
      refine log2_eq (hnormal.resolve_right ?_) hlt
      rintro rfl
      have := (Nat.log2_lt hm.ne').mpr hlt
      omega
    have hpad : padding (m / 2 ^ (-e).toNat) 0 = (-e).toNat := by
      unfold padding totalExponent
      omega
    have hwhole : parts x.toUInt32.toFloat32 = .finite .positive
        (m / 2 ^ (-e).toNat * 2 ^ (-e).toNat) e (Nat.mul_pos hpos (Nat.two_pow_pos _)) := by
      rw [parts_toFloat32 (by rwa [hword]) (Nat.lt_of_le_of_lt (hword ▸ Nat.div_le_self _ _) hlt)]
      refine Binary.finite_congr ?_ ?_
      · rw [hword, hpad, Nat.shiftLeft_eq]
      · rw [hword, hpad]; omega
    have hsub : UnpackedFloat.sub Format.binary32 (parts x) (parts x.toUInt32.toFloat32) =
        UnpackedFloat.normalize Format.binary32 (m % 2 ^ (-e).toNat : Nat) e .positive := by
      have hrest : (m : Int) - (m / 2 ^ (-e).toNat * 2 ^ (-e).toNat : Nat) =
          (m % 2 ^ (-e).toNat : Nat) := by
        have := Nat.div_add_mod' m (2 ^ (-e).toNat)
        omega
      rw [hwhole, hparts, ← hrest]
      simp only [UnpackedFloat.sub, decreaseExponent, Sign.apply, Int.min_self, Int.sub_self,
        Int.toNat_zero, Nat.shiftLeft_zero]
    rw [hsub]
    exact grainsOf_normalize (Nat.lt_of_le_of_lt (Nat.mod_le _ _) hlt) hge he.le

theorem grains_fract (hx : x.isFinite) (h0 : 0 ≤ x) :
    (Scalar.fract x).isFinite ∧ grains (Scalar.fract x) = grains x % 2 ^ 149 := by
  unfold Scalar.fract
  rcases parts_of_nonneg hx h0 with ⟨s, hparts⟩ | ⟨m, e, hm, hparts⟩
  · -- of a zero, a zero is left
    have hsmall : ¬ 8388608 ≤ x := by
      rw [le_iff, hparts]
      exact Bool.false_ne_true
    have hword : x.toUInt32 = 0 := by
      change UInt32.ofNatClamp ((parts x).toInt 0 (UInt32.size - 1)).toNat = 0
      rw [hparts]
      rfl
    have hdiff : ∃ s', parts (x - (0 : UInt32).toFloat32) = .zero s' := by
      change ∃ s', (Float32.Model.pack (UnpackedFloat.sub Format.binary32 (parts x)
        (.zero .positive))).unpack = .zero s'
      rw [hparts]
      cases s with
      | positive => exact ⟨.positive, rfl⟩
      | negative => exact ⟨.negative, rfl⟩
    obtain ⟨s', hdiff⟩ := hdiff
    rw [if_neg hsmall, hword, isFinite_iff, Below, grains, grains, hdiff, hparts]
    exact ⟨trivial, rfl⟩
  · have hgrains : grains x = (m * 2 ^ (e + 149).toNat : Nat) := by rw [grains, hparts]; rfl
    have hge : -149 ≤ e := by
      rw [isFinite_iff, Below, hparts] at hx
      exact hx.2.1
    split
    · rename_i hlarge
      have he := (large_iff hx hparts).mp hlarge
      refine ⟨by decide, ?_⟩
      rw [grains_zero, hgrains, show (e + 149).toNat = e.toNat + 149 by omega, Nat.pow_add,
        ← Nat.mul_assoc]
      push_cast
      exact (Int.mul_emod_left _ _).symm
    · rename_i hlarge
      have he : e < 0 := by
        rw [large_iff hx hparts] at hlarge
        omega
      obtain ⟨hfits, hsub⟩ := grainsOf_sub_whole hx hparts he
      have hdiff : parts (x - x.toUInt32.toFloat32) =
          UnpackedFloat.sub Format.binary32 (parts x) (parts x.toUInt32.toFloat32) :=
        unpack_pack hfits
      refine ⟨by rw [isFinite_iff, Below, hdiff]; exact hfits, ?_⟩
      have hpow : 2 ^ 149 = 2 ^ (-e).toNat * 2 ^ (e + 149).toNat := by
        rw [← Nat.pow_add]
        congr 1
        omega
      rw [grains, hdiff, hsub, hgrains, ← Nat.mul_mod_mul_right, ← hpow]
      rfl

/-- What is left lies from zero up to one. -/
theorem fract_range (hx : x.isFinite) (h0 : 0 ≤ x) :
    0 ≤ Scalar.fract x ∧ Scalar.fract x < 1 := by
  obtain ⟨hfin, hgrains⟩ := grains_fract hx h0
  rw [nonneg_iff_grains hfin, lt_iff_grains hfin (by decide), grains_one, hgrains]
  exact ⟨Int.emod_nonneg _ (by decide), Int.emod_lt_of_pos _ (by decide)⟩

end TracePlayback.Single
