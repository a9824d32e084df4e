import Mathlib

/-!
# Binary floats of any format, bit by bit

A format packs a number into a sign, an exponent and a mantissa. Unpacked it is a zero, or a sign, a
mantissa and an exponent, or not finite at all.

* `Fits f`: an unpacked number as the format `f` writes it. A finite one uses all digits of its
  mantissa unless the exponent is the least one, and its exponent has a place in the field.
* `unpack_pack`: what fits is packed without loss.
* `fits_unpack`: whatever is unpacked fits.
* `pack_of_large`: a number whose exponent has no place in the field is packed as an infinity.
-/
namespace TracePlayback.Binary

open Float.Model (Format UnpackedFloat totalExponent)
open Float.Model.UnpackedFloat

variable {f : Format}

/-- Written as the format writes it. -/
def Fits (f : Format) : UnpackedFloat → Prop
  | .finite _ m e _ =>
    m < 2 ^ f.mantissaBits ∧ f.minExponent ≤ e ∧
      (2 ^ f.mantissaBitsWithoutImplicit ≤ m ∨ e = f.minExponent) ∧
      e + f.mantissaBitsWithoutImplicit ≤ f.exponentBias
  | _ => True

theorem finite_congr {s : Sign} {m m' : Nat} {e e' : Int} {h : 0 < m} {h' : 0 < m'} (hm : m = m')
    (he : e = e') : UnpackedFloat.finite s m e h = .finite s m' e' h' := by
  subst hm he; rfl

/-! ## The numbers of a format -/

/-- The field of the exponent has room for the bias twice, and for two marks. -/
theorem two_pow_exponentBits (f : Format) : 2 ^ f.exponentBits = 2 * f.exponentBias + 2 := by
  have hpow := Nat.two_pow_pos (f.exponentBits - 1)
  obtain ⟨n, hn⟩ : ∃ n, f.exponentBits = n + 1 := ⟨f.exponentBits - 1, by have := f.he; omega⟩
  rw [Format.exponentBias, hn, Nat.add_sub_cancel, Nat.pow_succ]
  rw [hn, Nat.add_sub_cancel] at hpow
  omega

theorem minExponent_eq (f : Format) :
    f.minExponent = 1 - (f.exponentBias : Int) - f.mantissaBitsWithoutImplicit := by
  have hpow := Nat.two_pow_pos (f.exponentBits - 1)
  have hcast : ((2 ^ (f.exponentBits - 1) : Nat) : Int) = 2 ^ (f.exponentBits - 1) := by simp
  simp only [Format.minExponent, Format.exponentBias, Format.mantissaBits]
  omega

theorem mantissaBits_eq (f : Format) : f.mantissaBits = f.mantissaBitsWithoutImplicit + 1 :=
  Nat.add_comm ..

/-! ## Fields -/

theorem toNat_ofNat_of_lt {w n : Nat} (hn : n < 2 ^ w) : (BitVec.ofNat w n).toNat = n := by
  rw [BitVec.toNat_ofNat, Nat.mod_eq_of_lt hn]

theorem toNat_neg_one (w : Nat) : (-1#w).toNat = 2 ^ w - 1 := by
  rw [BitVec.neg_one_eq_allOnes, BitVec.toNat_allOnes]

theorem ofNat_ne {w n : Nat} (hn : n < 2 ^ w) {v : BitVec w} (h : v.toNat ≠ n) :
    BitVec.ofNat w n ≠ v := by
  rintro rfl
  exact h (toNat_ofNat_of_lt hn)

theorem toNat_append_one {w : Nat} (v : BitVec w) : (1#1 ++ v).toNat = 2 ^ w + v.toNat := by
  rw [BitVec.toNat_append, ← Nat.shiftLeft_add_eq_or_of_lt v.isLt, Nat.shiftLeft_eq]
  simp

/-! ## Packing -/

/-- The field of zeros is not that of the infinities. -/
theorem zero_ne_neg_one (f : Format) : (0#f.exponentBits) ≠ -1#_ := by
  intro h
  have hnat := congrArg BitVec.toNat h
  rw [toNat_neg_one, two_pow_exponentBits] at hnat
  simp at hnat

/-- A number without a leading digit: the exponent's field is all zeros. -/
theorem unpack_pack_subnormal (s : Sign) {m : Nat} (hm : 0 < m)
    (hlt : m < 2 ^ f.mantissaBitsWithoutImplicit) (hbias : 0 < f.exponentBias) :
    unpack f (pack f (.finite s m f.minExponent hm)) = .finite s m f.minExponent hm := by
  have hlog : m.log2 < f.mantissaBitsWithoutImplicit := (Nat.log2_lt (by omega)).mpr hlt
  have hp : pack f (.finite s m f.minExponent hm) =
      packComponents f s 0#_ (BitVec.ofNat _ m) := by
    unfold UnpackedFloat.pack
    rw [if_neg (by rw [two_pow_exponentBits, minExponent_eq]; omega),
      if_neg (by rw [mantissaBits_eq]; omega)]
  have hne : BitVec.ofNat f.mantissaBitsWithoutImplicit m ≠ 0#_ :=
    ofNat_ne hlt (by simpa using hm.ne)
  rw [hp]
  unfold unpack
  simp only [unpackMantissa_packComponents, unpackExponent_packComponents,
    unpackSign_packComponents, Sign.ofBitVec_toBitVec, hne]
  rw [if_neg (zero_ne_neg_one f), if_pos trivial, dif_neg not_false]
  refine finite_congr (toNat_ofNat_of_lt hlt) ?_
  rw [minExponent_eq, BitVec.toNat_ofNat, Nat.zero_mod]
  omega

theorem unpack_pack_normal (s : Sign) {m : Nat} {e : Int} (hm : 0 < m)
    (hlo : 2 ^ f.mantissaBitsWithoutImplicit ≤ m) (hhi : m < 2 ^ f.mantissaBits)
    (hge : f.minExponent ≤ e) (hle : e + f.mantissaBitsWithoutImplicit ≤ f.exponentBias) :
    unpack f (pack f (.finite s m e hm)) = .finite s m e hm := by
  have hlog : m.log2 + 1 = f.mantissaBits := by
    have h1 := (Nat.le_log2 hm.ne').mpr hlo
    have h2 := (Nat.log2_lt hm.ne').mpr hhi
    rw [mantissaBits_eq] at h2 ⊢
    omega
  rw [minExponent_eq] at hge
  obtain ⟨n, hn⟩ : ∃ n : Nat, e + f.exponentBias + f.mantissaBitsWithoutImplicit = n :=
    ⟨_, (Int.toNat_of_nonneg (by omega)).symm⟩
  have hfield : n < 2 ^ f.exponentBits := by rw [two_pow_exponentBits]; omega
  have hp : pack f (.finite s m e hm) =
      packComponents f s (BitVec.ofNat _ n) (BitVec.ofNat _ m) := by
    unfold UnpackedFloat.pack
    rw [hn, Int.toNat_natCast, if_neg (by rw [two_pow_exponentBits]; omega), if_pos hlog]
  have hone : BitVec.ofNat f.exponentBits n ≠ -1#_ :=
    ofNat_ne hfield (by rw [toNat_neg_one, two_pow_exponentBits]; omega)
  have hzero : BitVec.ofNat f.exponentBits n ≠ 0#_ := ofNat_ne hfield (by simp; omega)
  rw [hp]
  unfold unpack
  simp only [unpackMantissa_packComponents, unpackExponent_packComponents,
    unpackSign_packComponents, Sign.ofBitVec_toBitVec, hone, hzero, if_false,
    toNat_ofNat_of_lt hfield, toNat_append_one]
  refine finite_congr ?_ (by omega)
  rw [mantissaBits_eq, Nat.pow_succ] at hhi
  rw [BitVec.toNat_ofNat, Nat.mod_eq_sub_mod hlo, Nat.mod_eq_of_lt (by omega)]
  omega

theorem unpack_pack {u : UnpackedFloat} (h : Fits f u) : unpack f (pack f u) = u := by
  cases u with
  | notANumber => exact unpack_packedNaN
  | infinity s =>
    simp [pack, packedInfinity, unpack]
  | zero s => exact unpack_packedZero
  | finite s m e hm =>
    obtain ⟨hlt, hge, hnormal, hle⟩ := h
    rcases Nat.lt_or_ge m (2 ^ f.mantissaBitsWithoutImplicit) with hsub | hnorm
    · obtain rfl := hnormal.resolve_left (by omega)
      exact unpack_pack_subnormal s hm hsub (by rw [minExponent_eq] at hle; omega)
    · exact unpack_pack_normal s hm hnorm hlt hge hle

theorem pack_of_large (s : Sign) {m : Nat} {e : Int} (hm : 0 < m)
    (hlarge : f.exponentBias < e + f.mantissaBitsWithoutImplicit) :
    pack f (.finite s m e hm) = packedInfinity f s := by
  unfold UnpackedFloat.pack
  rw [if_pos (by rw [two_pow_exponentBits]; omega)]

/-! ## Unpacking -/

theorem fits_unpack (hbias : 0 < f.exponentBias) (b : BitVec f.numBits) : Fits f (unpack f b) := by
  fun_cases unpack with
  | case1 => trivial
  | case2 => trivial
  | case3 => trivial
  | case4 mantissa field exponent sign s hone hzero hne =>
    have hlt := mantissa.isLt
    have hfield : field.toNat = 0 := by rw [hzero]; simp
    have hmin := minExponent_eq f
    refine ⟨?_, by omega, Or.inr (by omega), by omega⟩
    rw [mantissaBits_eq, Nat.pow_succ]
    omega
  | case5 mantissa field exponent sign s hone hzero =>
    have hlt := mantissa.isLt
    have hpow := two_pow_exponentBits f
    have hmin := minExponent_eq f
    have hpos : field.toNat ≠ 0 := fun h => hzero (BitVec.eq_of_toNat_eq (by rw [h]; simp))
    have hlast : field.toNat ≠ 2 ^ f.exponentBits - 1 :=
      fun h => hone (BitVec.eq_of_toNat_eq (by rw [h, toNat_neg_one]))
    have hfield := field.isLt
    rw [Fits, toNat_append_one]
    refine ⟨?_, by omega, Or.inl (by omega), by omega⟩
    rw [mantissaBits_eq, Nat.pow_succ]
    omega

end TracePlayback.Binary
