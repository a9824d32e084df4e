import TracePlayback.Proofs.Binary.Rounding

/-!
# A mantissa times a power of ten, rounded once

* `pack_ofScientific`: the product of a mantissa and a power of ten is rounded as its value.
* `Full f v`: a value that the format writes with all digits of a mantissa. Products and quotients
  of such numbers are rounded as the values are (`mul_full`, `div_full`).
* `ofScientific_double`, `ofScientific_single`: so a double or single is nearest to the value of its
  digits, also where it is multiplied or divided by a power of ten that it can write.
-/
namespace TracePlayback.Binary

open Float.Model (Format UnpackedFloat totalExponent)
open Float.Model.UnpackedFloat

variable {f : Format} {m : Nat} {e : Int} {v w : ℚ}

/-! ## Any format -/

/-- A value beyond the powers of ten that are worked out is too large for the format. -/
theorem two_pow_le_scientific (hm : 0 < m) (he : (2 : Int) ^ f.exponentBits < e) :
    (2 : ℚ) ^ (f.exponentBias + 1) ≤ m * 10 ^ e := by
  have hbits : ((2 ^ f.exponentBits : Nat) : Int) = 2 * f.exponentBias + 2 := by
    rw [two_pow_exponentBits]
    push_cast
    rfl
  push_cast at hbits
  have hone : (1 : ℚ) ≤ m := by exact_mod_cast hm
  calc (2 : ℚ) ^ (f.exponentBias + 1) ≤ 10 ^ (f.exponentBias + 1) := by gcongr; norm_num
    _ = 10 ^ ((f.exponentBias + 1 : Nat) : Int) := (zpow_natCast _ _).symm
    _ ≤ 10 ^ e := zpow_le_zpow_right₀ (by norm_num) (by push_cast; omega)
    _ ≤ m * 10 ^ e := le_mul_of_one_le_left (by positivity) hone

/-- A value below them is too small for it. -/
theorem scientific_lt_two_pow (hf : f.mantissaBits ≤ 2 ^ f.exponentBits)
    (he : e < -((2 : Int) ^ f.exponentBits + m.log2)) :
    (m : ℚ) * 10 ^ e < 2 ^ (f.minExponent - 1) := by
  have hbits : ((2 ^ f.exponentBits : Nat) : Int) = 2 * f.exponentBias + 2 := by
    rw [two_pow_exponentBits]
    push_cast
    rfl
  have hpow := hbits
  push_cast at hpow
  rw [mantissaBits_eq] at hf
  have hlt : (m : ℚ) < 2 ^ (m.log2 + 1) := by exact_mod_cast Nat.lt_log2_self (n := m)
  have hten : (10 : ℚ) ^ e ≤ 2 ^ (3 * e) := by
    rw [zpow_mul, show (2 : ℚ) ^ (3 : Int) = 8 by norm_num]
    obtain ⟨n, hn⟩ : ∃ n : Nat, e = -n := ⟨(-e).toNat, by omega⟩
    rw [hn, zpow_neg, zpow_neg, zpow_natCast, zpow_natCast]
    gcongr
    norm_num
  calc (m : ℚ) * 10 ^ e < 2 ^ (m.log2 + 1) * 2 ^ (3 * e) :=
        mul_lt_mul hlt hten (by positivity) (by positivity)
    _ = 2 ^ ((m.log2 + 1 : Nat) + 3 * e : Int) := by rw [zpow_add₀ (by norm_num), zpow_natCast]
    _ ≤ 2 ^ (f.minExponent - 1) := by
        refine zpow_le_zpow_right₀ (by norm_num) ?_
        rw [minExponent_eq]
        push_cast
        omega

/-- Digits times a power of ten are rounded as their value, beyond the range of the format too. -/
theorem pack_ofScientific (hf : f.mantissaBits ≤ 2 ^ f.exponentBits) (m : Nat) (e : Int) :
    pack f (UnpackedFloat.ofScientific f m e) = pack f (nearest f .positive (m * 10 ^ e)) := by
  unfold UnpackedFloat.ofScientific
  split
  · rename_i hm
    rw [hm, Nat.cast_zero, zero_mul, nearest_zero]
  rename_i hne
  have hm := Nat.pos_of_ne_zero hne
  have hcast : (0 : ℚ) < m := by exact_mod_cast hm
  split
  · rename_i he
    rw [nearest_large _ (two_pow_le_scientific hm he)]
    rfl
  split
  · rename_i he
    rw [nearest_small _ (by positivity) (scientific_lt_two_pow hf he)]
  split
  · rename_i he
    obtain ⟨n, rfl⟩ := Int.eq_ofNat_of_zero_le he
    rw [mul_finite]
    · congr 2
      rw [Nat.shiftLeft_eq, zpow_neg, zpow_natCast, zpow_natCast, zpow_zero, mul_one,
        Int.toNat_natCast]
      push_cast
      rw [mul_assoc (m : ℚ), mul_inv_cancel₀ (by positivity), mul_one]
    · rw [Int.toNat_natCast, Nat.shiftLeft_eq, mantissaBits_eq, Nat.pow_succ, Nat.mul_comm m,
        Nat.mul_assoc, Nat.mul_assoc]
      refine (Nat.le_log2 (by positivity)).mpr ?_
      exact Nat.le_mul_of_pos_right _ (by positivity)
  · rename_i he
    rw [div_finite]
    congr 2
    rw [zpow_zero, mul_one, mul_one]
    push_cast
    rw [← zpow_natCast, Int.toNat_of_nonneg (by omega), zpow_neg, div_inv_eq_mul]

/-! ## Numbers with all digits -/

/-- A value that the format writes with all digits of a mantissa. -/
def Full (f : Format) (v : ℚ) : Prop :=
  ∃ (m : Nat) (e : Int) (hm : 0 < m), Fits f (.finite .positive m e hm) ∧
    2 ^ f.mantissaBitsWithoutImplicit ≤ m ∧ v = m * 2 ^ e

theorem Full.unpack_pack (h : Full f v) :
    unpack f (pack f (nearest f .positive v)) = nearest f .positive v := by
  obtain ⟨m, e, hm, hfits, -, rfl⟩ := h
  rw [nearest_eq _ hm hfits]
  exact Binary.unpack_pack hfits

theorem mul_full (hv : Full f v) (hw : Full f w) :
    UnpackedFloat.mul f (nearest f .positive v) (nearest f .positive w) =
      nearest f .positive (v * w) := by
  obtain ⟨m, e, hm, hfits, hfull, rfl⟩ := hv
  obtain ⟨m', e', hm', hfits', -, rfl⟩ := hw
  rw [nearest_eq _ hm hfits, nearest_eq _ hm' hfits', mul_finite]
  · rfl
  · refine (Nat.le_log2 (Nat.mul_pos hm hm').ne').mpr (hfull.trans ?_)
    exact Nat.le_mul_of_pos_right _ hm'

theorem div_full (hv : Full f v) (hw : Full f w) :
    UnpackedFloat.div f (nearest f .positive v) (nearest f .positive w) =
      nearest f .positive (v / w) := by
  obtain ⟨m, e, hm, hfits, -, rfl⟩ := hv
  obtain ⟨m', e', hm', hfits', -, rfl⟩ := hw
  rw [nearest_eq _ hm hfits, nearest_eq _ hm' hfits', div_finite]
  rfl

/-- A number of few digits times a power of two that has all exponents around it. -/
theorem full_of_lt (hm : 0 < m) (hlt : m < 2 ^ f.mantissaBits)
    (hlow : f.minExponent + f.mantissaBitsWithoutImplicit ≤ e)
    (hhigh : e + f.mantissaBitsWithoutImplicit ≤ f.exponentBias) : Full f (m * 2 ^ e) := by
  have hlog := (Nat.log2_lt hm.ne').mpr hlt
  rw [mantissaBits_eq] at hlog
  obtain ⟨n, hn⟩ : ∃ n, m.log2 + n = f.mantissaBitsWithoutImplicit :=
    ⟨_, Nat.add_sub_cancel' (by omega)⟩
  have hlo : 2 ^ f.mantissaBitsWithoutImplicit ≤ m * 2 ^ n := by
    rw [← hn, Nat.pow_add]
    exact Nat.mul_le_mul_right _ (Nat.log2_self_le hm.ne')
  have hhi : m * 2 ^ n < 2 ^ f.mantissaBits := by
    rw [mantissaBits_eq, ← hn, Nat.add_right_comm, Nat.pow_add]
    exact Nat.mul_lt_mul_of_pos_right Nat.lt_log2_self (Nat.two_pow_pos n)
  refine ⟨m * 2 ^ n, e - n, Nat.mul_pos hm (Nat.two_pow_pos n),
    ⟨hhi, by omega, Or.inl hlo, by omega⟩, hlo, ?_⟩
  rw [zpow_sub₀ (by norm_num), zpow_natCast]
  push_cast
  field_simp

/-! ## The short way -/

theorem full_natCast (hm : 0 < m) (hlt : m < 2 ^ f.mantissaBits)
    (hbias : f.mantissaBitsWithoutImplicit ≤ f.exponentBias) : Full f m := by
  have hmin := minExponent_eq f
  have hdigits := f.hm
  have hfull := full_of_lt hm hlt (e := 0) (by omega) (by omega)
  rwa [zpow_zero, mul_one] at hfull

theorem ofNat_eq (f : Format) (n : Nat) : UnpackedFloat.ofNat f n = nearest f .positive n := by
  rcases Nat.eq_zero_or_pos n with rfl | hn
  · rw [Nat.cast_zero, nearest_zero]
    rfl
  · have hgt : compare (n : Int) 0 = .gt := compare_gt_iff_gt.mpr (Int.natCast_pos.mpr hn)
    simp only [UnpackedFloat.ofNat, UnpackedFloat.ofInt, UnpackedFloat.normalize, hgt,
      Int.toNat_natCast]
    rw [round_eq _ hn, zpow_zero, mul_one]

/-- A power of ten whose fives have few digits. -/
theorem full_ten_pow {n : Nat} (hfive : 5 ^ n < 2 ^ f.mantissaBits)
    (hn : n + f.mantissaBitsWithoutImplicit ≤ f.exponentBias) : Full f (10 ^ n) := by
  have hmin := minExponent_eq f
  have hdigits := f.hm
  have hfull := full_of_lt (f := f) (Nat.pow_pos (n := n) (show 0 < 5 by decide)) hfive (e := n)
    (by omega) (by omega)
  rw [zpow_natCast] at hfull
  push_cast at hfull
  rwa [← mul_pow, show (5 : ℚ) * 2 = 10 by norm_num] at hfull

section Short

variable {n : Nat} (hm : m < 2 ^ f.mantissaBits) (hfive : 5 ^ n < 2 ^ f.mantissaBits)
  (hn : n + f.mantissaBitsWithoutImplicit ≤ f.exponentBias)
include hm hfive hn

theorem mul_ten_pow :
    UnpackedFloat.mul f (unpack f (pack f (UnpackedFloat.ofNat f m)))
        (unpack f (pack f (UnpackedFloat.ofNat f (10 ^ n)))) =
      nearest f .positive (m * 10 ^ n) := by
  have hten := full_ten_pow hfive hn
  rw [ofNat_eq, ofNat_eq, Nat.cast_pow, Nat.cast_ofNat, hten.unpack_pack]
  rcases Nat.eq_zero_or_pos m with rfl | hpos
  · obtain ⟨m', e', hm', hfits', -, hvalue⟩ := hten
    rw [hvalue, nearest_eq _ hm' hfits', Nat.cast_zero, zero_mul, nearest_zero]
    exact congrArg (UnpackedFloat.mul f · _) unpack_packedZero
  · have hfull := full_natCast hpos hm (by omega)
    rw [hfull.unpack_pack, mul_full hfull hten]

theorem div_ten_pow :
    UnpackedFloat.div f (unpack f (pack f (UnpackedFloat.ofNat f m)))
        (unpack f (pack f (UnpackedFloat.ofNat f (10 ^ n)))) =
      nearest f .positive (m / 10 ^ n) := by
  have hten := full_ten_pow hfive hn
  rw [ofNat_eq, ofNat_eq, Nat.cast_pow, Nat.cast_ofNat, hten.unpack_pack]
  rcases Nat.eq_zero_or_pos m with rfl | hpos
  · obtain ⟨m', e', hm', hfits', -, hvalue⟩ := hten
    rw [hvalue, nearest_eq _ hm' hfits', Nat.cast_zero, zero_div, nearest_zero]
    exact congrArg (UnpackedFloat.div f · _) unpack_packedZero
  · have hfull := full_natCast hpos hm (by omega)
    rw [hfull.unpack_pack, div_full hfull hten]

end Short

/-! ## Doubles and singles -/

/-- The double nearest to a value that is not negative. -/
def double (v : ℚ) : Float := .ofModel (.pack (nearest Format.binary64 .positive v))

/-- The single nearest to a value that is not negative. -/
def single (v : ℚ) : Float32 := .ofModel (.pack (nearest Format.binary32 .positive v))

theorem double_powers : ∀ n (h : n < Float.exactlyRepresentablePowersOfTen.size),
    Float.exactlyRepresentablePowersOfTen[n] = .ofModel (.ofNat (10 ^ n)) := by
  decide +kernel

theorem single_powers : ∀ n (h : n < Float32.exactlyRepresentablePowersOfTen.size),
    Float32.exactlyRepresentablePowersOfTen[n] = .ofModel (.ofNat (10 ^ n)) := by
  decide +kernel

theorem ofScientific_double (m : Nat) (below : Bool) (n : Nat) :
    Float.ofScientific m below n = double (m * 10 ^ (if below then -(n : Int) else n)) := by
  unfold Float.ofScientific
  split
  · -- the short way
    rename_i h
    have hm : m.toUInt64.toNat = m := UInt64.toNat_ofNat_of_lt' (Nat.lt_trans h.1 (by decide))
    have hfive : 5 ^ n < 2 ^ 53 :=
      Nat.lt_of_le_of_lt (Nat.pow_le_pow_right (by decide) h.2) (by decide)
    have hn : n + 52 ≤ 1023 := by omega
    have hwhole : m.toUInt64.toFloat = .ofModel (.ofNat m) := by
      change Float.ofModel (.ofNat m.toUInt64.toNat) = _
      rw [hm]
    simp only [hwhole, double_powers]
    cases below with
    | false =>
      refine congrArg Float.ofModel (congrArg Float.Model.pack ?_)
      rw [if_neg (by decide), zpow_natCast]
      exact mul_ten_pow (f := Format.binary64) h.1 hfive hn
    | true =>
      refine congrArg Float.ofModel (congrArg Float.Model.pack ?_)
      rw [if_pos rfl, zpow_neg, zpow_natCast, ← div_eq_mul_inv]
      exact div_ten_pow (f := Format.binary64) h.1 hfive hn
  · have hlong : ∀ e : Int, Float.ofModel (Float.Model.ofScientific m e) = double (m * 10 ^ e) := by
      intro e
      have hpack := pack_ofScientific (f := Format.binary64) (by decide) m e
      simp only [Float.Model.ofScientific, double, Float.Model.pack, hpack]
    cases below with
    | false => exact hlong n
    | true =>
      simp only [if_true, Int.negOfNat_eq]
      exact hlong (-n)

theorem ofScientific_single (m : Nat) (below : Bool) (n : Nat) :
    Float32.ofScientific m below n = single (m * 10 ^ (if below then -(n : Int) else n)) := by
  unfold Float32.ofScientific
  split
  · -- the short way
    rename_i h
    have hm : m.toUInt64.toNat = m := UInt64.toNat_ofNat_of_lt' (Nat.lt_trans h.1 (by decide))
    have hfive : 5 ^ n < 2 ^ 24 :=
      Nat.lt_of_le_of_lt (Nat.pow_le_pow_right (by decide) h.2) (by decide)
    have hn : n + 23 ≤ 127 := by omega
    have hwhole : m.toUInt64.toFloat32 = .ofModel (.ofNat m) := by
      change Float32.ofModel (.ofNat m.toUInt64.toNat) = _
      rw [hm]
    simp only [hwhole, single_powers]
    cases below with
    | false =>
      refine congrArg Float32.ofModel (congrArg Float32.Model.pack ?_)
      rw [if_neg (by decide), zpow_natCast]
      exact mul_ten_pow (f := Format.binary32) (Nat.lt_trans h.1 (by decide)) hfive hn
    | true =>
      refine congrArg Float32.ofModel (congrArg Float32.Model.pack ?_)
      rw [if_pos rfl, zpow_neg, zpow_natCast, ← div_eq_mul_inv]
      exact div_ten_pow (f := Format.binary32) (Nat.lt_trans h.1 (by decide)) hfive hn
  · have hlong : ∀ e : Int,
        Float32.ofModel (Float32.Model.ofScientific m e) = single (m * 10 ^ e) := by
      intro e
      have hpack := pack_ofScientific (f := Format.binary32) (by decide) m e
      simp only [Float32.Model.ofScientific, single, Float32.Model.pack, hpack]
    cases below with
    | false => exact hlong n
    | true =>
      simp only [if_true, Int.negOfNat_eq]
      exact hlong (-n)

end TracePlayback.Binary
