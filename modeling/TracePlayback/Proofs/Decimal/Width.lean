import TracePlayback.Decimal.Basic
import TracePlayback.Proofs.Binary.Scientific

/-!
# A single and the double of the same value

An exact decimal stands between the two widths: `Stands d u` says that it has the sign and the value
of an unpacked number.

* `toFloat_congr`: the nearest double depends on the sign and the value of a decimal alone.
* `toFloat_ofFloat?`: a double is nearest to its exact decimal.
* `narrow_widen`: a single comes back from the double of the same value, zeros with their sign,
  infinities and the value that is no number included.
-/
namespace TracePlayback.Decimal

open Binary
open Float.Model (UnpackedFloat)
open Float.Model.UnpackedFloat

/-! ## Values -/

/-- The magnitude of a decimal. -/
def value (d : Decimal) : ℚ := d.digits * 10 ^ d.exponent

theorem scientific_exponent (e : Int) :
    (if decide (e < 0) = true then -(e.natAbs : Int) else e.natAbs) = e := by
  split
  · rename_i h
    have := of_decide_eq_true h
    omega
  · rename_i h
    have := of_decide_eq_false (Bool.eq_false_iff.mpr h)
    omega

theorem toFloat_eq (d : Decimal) :
    d.toFloat = if d.negative then -double d.value else double d.value := by
  have h := ofScientific_double d.digits (d.exponent < 0) d.exponent.natAbs
  rw [scientific_exponent] at h
  unfold toFloat
  simp only [h]
  rfl

theorem toFloat32_eq (d : Decimal) :
    d.toFloat32 = if d.negative then -single d.value else single d.value := by
  have h := ofScientific_single d.digits (d.exponent < 0) d.exponent.natAbs
  rw [scientific_exponent] at h
  unfold toFloat32
  simp only [h]
  rfl

theorem toFloat_congr {c d : Decimal} (hsign : c.negative = d.negative)
    (hvalue : c.value = d.value) : c.toFloat = d.toFloat := by
  rw [toFloat_eq, toFloat_eq, hsign, hvalue]

theorem toFloat32_congr {c d : Decimal} (hsign : c.negative = d.negative)
    (hvalue : c.value = d.value) : c.toFloat32 = d.toFloat32 := by
  rw [toFloat32_eq, toFloat32_eq, hsign, hvalue]

/-! ## Decimals of unpacked numbers -/

/-- The magnitude of an unpacked number; none of those that are not finite is asked for. -/
def magnitude : UnpackedFloat → ℚ
  | .finite _ m e _ => m * 2 ^ e
  | _ => 0

/-- Whether an unpacked number has a minus sign. -/
def isNegative : UnpackedFloat → Bool
  | .finite .negative .. | .zero .negative => true
  | _ => false

/-- The decimal has the sign and the value of a finite number. -/
structure Stands (d : Decimal) (u : UnpackedFloat) : Prop where
  finite : u.isFinite = true
  value : d.value = magnitude u
  negative : d.negative = isNegative u

theorem ofBinary_negative (negative : Bool) (m : Nat) (q : Int) :
    (ofBinary negative m q).negative = negative := by
  unfold ofBinary
  split <;> rfl

/-- Halves are fives of the next place. -/
theorem ofBinary_value (negative : Bool) (m : Nat) (q : Int) :
    (ofBinary negative m q).value = m * 2 ^ q := by
  unfold ofBinary
  split
  · rename_i h
    obtain ⟨n, rfl⟩ := Int.eq_ofNat_of_zero_le h
    simp only [value, zpow_zero, mul_one, Int.toNat_natCast, Nat.shiftLeft_eq, zpow_natCast]
    push_cast
    rfl
  · rename_i h
    obtain ⟨n, hn⟩ : ∃ n : Nat, q = -n := ⟨(-q).toNat, by omega⟩
    subst hn
    simp only [value, neg_neg, Int.toNat_natCast, zpow_neg, zpow_natCast]
    rw [show (10 : ℚ) = 5 * 2 by norm_num, mul_pow]
    rw [Nat.pow_eq]
    push_cast
    field_simp

/-- The decimal of an unpacked number as the format writes it. -/
def ofUnpacked? (f : Float.Model.Format) (u : UnpackedFloat) : Option Decimal :=
  match u with
  | .zero _ => some (ofBinary (isNegative u) 0 f.minExponent)
  | .finite _ m e _ => some (ofBinary (isNegative u) m e)
  | _ => none

section Fields

variable {f : Float.Model.Format} (b : BitVec f.numBits)

theorem toNat_unpackExponent : (unpackExponent b).toNat =
    (b.toNat >>> f.mantissaBitsWithoutImplicit) % 2 ^ f.exponentBits := by
  rw [unpackExponent_def, BitVec.extractLsb'_toNat]

theorem toNat_unpackMantissa :
    (unpackMantissa b).toNat = b.toNat % 2 ^ f.mantissaBitsWithoutImplicit := by
  rw [unpackMantissa_def, BitVec.extractLsb'_toNat, Nat.shiftRight_zero]

theorem ofBitVec_unpackSign :
    Sign.ofBitVec (unpackSign b) =
      if b.toNat.testBit (f.exponentBits + f.mantissaBitsWithoutImplicit) then .negative
      else .positive := by
  have hbit : (unpackSign b).toNat =
      (b.toNat.testBit (f.exponentBits + f.mantissaBitsWithoutImplicit)).toNat := by
    rw [unpackSign_def, BitVec.extractLsb'_toNat, Nat.add_comm, Nat.shiftRight_eq_div_pow,
      Nat.pow_one, Nat.toNat_testBit]
  rw [Sign.ofBitVec]
  cases htest : b.toNat.testBit (f.exponentBits + f.mantissaBitsWithoutImplicit) with
  | false => rw [if_pos (BitVec.eq_of_toNat_eq (by rw [hbit, htest]; rfl)), if_neg (by decide)]
  | true =>
    rw [if_neg, if_pos rfl]
    intro h
    rw [h, htest] at hbit
    exact absurd hbit (by decide)

theorem isNegative_ofBitVec {m : Nat} (e : Int) (hm : 0 < m) :
    isNegative (.zero (.ofBitVec (unpackSign b))) =
        b.toNat.testBit (f.exponentBits + f.mantissaBitsWithoutImplicit) ∧
      isNegative (.finite (.ofBitVec (unpackSign b)) m e hm) =
        b.toNat.testBit (f.exponentBits + f.mantissaBitsWithoutImplicit) := by
  rw [ofBitVec_unpackSign]
  cases b.toNat.testBit (f.exponentBits + f.mantissaBitsWithoutImplicit) <;> exact ⟨rfl, rfl⟩

theorem ofBits?_eq :
    ofBits? f.exponentBits f.mantissaBitsWithoutImplicit b.toNat = ofUnpacked? f (unpack f b) := by
  have hmin := minExponent_eq f
  have hlast : (-1#f.exponentBits).toNat + 1 = 2 ^ f.exponentBits := by
    have := Nat.two_pow_pos f.exponentBits
    rw [toNat_neg_one]
    omega
  have hunit : ((2 : Nat) : Int) - (2 ^ (f.exponentBits - 1) : Nat) -
      f.mantissaBitsWithoutImplicit = f.minExponent := by
    have := Nat.two_pow_pos (f.exponentBits - 1)
    rw [hmin, Float.Model.Format.exponentBias]
    omega
  unfold ofBits?
  simp only [Nat.one_shiftLeft, ← toNat_unpackExponent, ← toNat_unpackMantissa, hunit]
  fun_cases unpack f b with
  | case1 mantissa field sign s hone =>
    rw [if_pos (by rw [← hlast]; exact congrArg (·.toNat + 1) hone)]
    rfl
  | case2 mantissa field hone =>
    rw [if_pos (by rw [← hlast]; exact congrArg (·.toNat + 1) hone)]
    rfl
  | case3 mantissa field sign s hone hzero hmantissa =>
    have hfield : (unpackExponent b).toNat = 0 := by
      rw [show unpackExponent b = 0#_ from hzero]; simp
    have hmant : (unpackMantissa b).toNat = 0 := by
      rw [show unpackMantissa b = 0#_ from hmantissa]; simp
    rw [hfield, hmant, if_neg (by rw [two_pow_exponentBits]; omega), if_pos rfl,
      ← (isNegative_ofBitVec b 0 Nat.one_pos).1]
    rfl
  | case4 mantissa field exponent sign s hone hzero hne =>
    have hfield : (unpackExponent b).toNat = 0 := by
      rw [show unpackExponent b = 0#_ from hzero]; simp
    have hexponent : exponent + 1 = f.minExponent := by
      have : exponent =
        (unpackExponent b).toNat - (f.exponentBias + f.mantissaBitsWithoutImplicit) := rfl
      omega
    have hpos : 0 < (unpackMantissa b).toNat := by
      rw [BitVec.toNat_pos, BitVec.pos_iff_ne_zero]; exact hne
    rw [hfield, if_neg (by rw [two_pow_exponentBits]; omega), if_pos rfl, ofUnpacked?,
      (isNegative_ofBitVec b (exponent + 1) hpos).2, hexponent]
  | case5 mantissa field exponent sign s hone hzero =>
    have hfield : (unpackExponent b).toNat ≠ 0 :=
      fun h => hzero (BitVec.eq_of_toNat_eq (by rw [h]; simp))
    have hone' : (unpackExponent b).toNat + 1 ≠ 2 ^ f.exponentBits := by
      rw [← hlast]
      exact fun h => hone (BitVec.eq_of_toNat_eq (Nat.succ.inj h))
    have hexponent : f.minExponent + ((unpackExponent b).toNat - 1) = exponent := by
      have : exponent =
        (unpackExponent b).toNat - (f.exponentBias + f.mantissaBitsWithoutImplicit) := rfl
      omega
    rw [if_neg hone', if_neg hfield, ofUnpacked?,
      (isNegative_ofBitVec b exponent (by simp)).2, hexponent, toNat_append_one,
      Nat.add_comm (unpackMantissa b).toNat]

end Fields

theorem stands_ofUnpacked? {f : Float.Model.Format} {u : UnpackedFloat} {d : Decimal}
    (h : ofUnpacked? f u = some d) : Stands d u := by
  cases u with
  | notANumber => cases h
  | infinity s => cases h
  | zero s =>
    obtain rfl := Option.some.inj h
    exact ⟨rfl, by rw [ofBinary_value]; simp [magnitude], ofBinary_negative ..⟩
  | finite s m e hm =>
    obtain rfl := Option.some.inj h
    exact ⟨rfl, ofBinary_value .., ofBinary_negative ..⟩

theorem ofUnpacked?_isSome (f : Float.Model.Format) (u : UnpackedFloat) :
    (ofUnpacked? f u).isSome = u.isFinite := by
  cases u <;> rfl

/-! ## Rounding back -/

section Fitting

variable {f : Float.Model.Format} {u : UnpackedFloat} {d : Decimal}

theorem fits_neg (h : Fits f u) : Fits f u.neg := by
  cases u <;> exact h

theorem fits_abs (h : Fits f u) : Fits f u.abs := by
  cases u <;> exact h

/-- Rounding leaves the magnitude of a number of the format as it is. -/
theorem Stands.nearest (h : Stands d u) (hfits : Fits f u) :
    nearest f .positive d.value = u.abs := by
  rw [h.value]
  cases u with
  | notANumber => nomatch h.finite
  | infinity s => nomatch h.finite
  | zero s => exact nearest_zero f .positive
  | finite s m e hm => exact nearest_eq .positive hm hfits

theorem Stands.signed (h : Stands d u) : (if d.negative then u.abs.neg else u.abs) = u := by
  rw [h.negative]
  cases u with
  | notANumber => nomatch h.finite
  | infinity s => nomatch h.finite
  | zero s => cases s <;> rfl
  | finite s m e hm => cases s <;> rfl

end Fitting

section Double

variable {u : UnpackedFloat} {x y : Float} {d : Decimal}

theorem unpack_double (h : Fits .binary64 u) : (Float.Model.pack u).unpack = u :=
  unpack_pack (f := .binary64) h

theorem fits_double (x : Float) : Fits .binary64 x.toModel.unpack :=
  fits_unpack (f := .binary64) (by decide) _

theorem double_ext (h : x.toModel.unpack = y.toModel.unpack) : x = y :=
  Float.toBits_inj.mp (UInt64.toBitVec_inj.mp
    ((unpack_inj_of_valid x.toModel.valid y.toModel.valid).mp h))

theorem Stands.unpack_toFloat (h : Stands d u) (hfits : Fits .binary64 u) :
    d.toFloat.toModel.unpack = u := by
  have hsigned := h.signed
  rw [toFloat_eq, double, h.nearest hfits]
  cases hneg : d.negative with
  | false =>
    rw [hneg, if_neg (by decide)] at hsigned
    exact (unpack_double (fits_abs hfits)).trans hsigned
  | true =>
    rw [hneg, if_pos rfl] at hsigned
    change (Float.Model.pack (Float.Model.pack u.abs).unpack.neg).unpack = u
    rw [unpack_double (fits_abs hfits), unpack_double (fits_neg (fits_abs hfits)), hsigned]

theorem ofFloat?_eq (x : Float) : ofFloat? x = ofUnpacked? .binary64 x.toModel.unpack :=
  ofBits?_eq (f := .binary64) x.toBits.toBitVec

theorem stands_ofFloat? (h : ofFloat? x = some d) : Stands d x.toModel.unpack :=
  stands_ofUnpacked? (by rw [← ofFloat?_eq, h])

theorem toFloat_ofFloat? (h : ofFloat? x = some d) : d.toFloat = x :=
  double_ext ((stands_ofFloat? h).unpack_toFloat (fits_double x))

theorem infinite_double (h : ofFloat? x = none) : x = 0 / 0 ∨ x = 1 / 0 ∨ x = -1 / 0 := by
  rw [ofFloat?_eq] at h
  have hpacked : Float.ofModel (.pack x.toModel.unpack) = x :=
    double_ext (unpack_double (fits_double x))
  rw [← hpacked]
  cases hx : x.toModel.unpack with
  | notANumber => exact .inl (by decide +kernel)
  | infinity s =>
    cases s with
    | positive => exact .inr (.inl (by decide +kernel))
    | negative => exact .inr (.inr (by decide +kernel))
  | zero s => rw [hx] at h; nomatch h
  | finite s m e hm => rw [hx] at h; nomatch h

end Double

section Single

variable {u : UnpackedFloat} {x y : Float32} {d : Decimal}

theorem unpack_single (h : Fits .binary32 u) : (Float32.Model.pack u).unpack = u :=
  unpack_pack (f := .binary32) h

theorem fits_single (x : Float32) : Fits .binary32 x.toModel.unpack :=
  fits_unpack (f := .binary32) (by decide) _

theorem single_ext (h : x.toModel.unpack = y.toModel.unpack) : x = y :=
  Float32.toBits_inj.mp (UInt32.toBitVec_inj.mp
    ((unpack_inj_of_valid x.toModel.valid y.toModel.valid).mp h))

theorem Stands.unpack_toFloat32 (h : Stands d u) (hfits : Fits .binary32 u) :
    d.toFloat32.toModel.unpack = u := by
  have hsigned := h.signed
  rw [toFloat32_eq, single, h.nearest hfits]
  cases hneg : d.negative with
  | false =>
    rw [hneg, if_neg (by decide)] at hsigned
    exact (unpack_single (fits_abs hfits)).trans hsigned
  | true =>
    rw [hneg, if_pos rfl] at hsigned
    change (Float32.Model.pack (Float32.Model.pack u.abs).unpack.neg).unpack = u
    rw [unpack_single (fits_abs hfits), unpack_single (fits_neg (fits_abs hfits)), hsigned]

theorem ofFloat32?_eq (x : Float32) :
    ofFloat32? x = ofUnpacked? .binary32 x.toModel.unpack :=
  ofBits?_eq (f := .binary32) x.toBits.toBitVec

theorem stands_ofFloat32? (h : ofFloat32? x = some d) : Stands d x.toModel.unpack :=
  stands_ofUnpacked? (by rw [← ofFloat32?_eq, h])

theorem toFloat32_ofFloat32? (h : ofFloat32? x = some d) : d.toFloat32 = x :=
  single_ext ((stands_ofFloat32? h).unpack_toFloat32 (fits_single x))

theorem infinite_single (h : ofFloat32? x = none) : x = 0 / 0 ∨ x = 1 / 0 ∨ x = -1 / 0 := by
  rw [ofFloat32?_eq] at h
  have hpacked : Float32.ofModel (.pack x.toModel.unpack) = x :=
    single_ext (unpack_single (fits_single x))
  rw [← hpacked]
  cases hx : x.toModel.unpack with
  | notANumber => exact .inl (by decide +kernel)
  | infinity s =>
    cases s with
    | positive => exact .inr (.inl (by decide +kernel))
    | negative => exact .inr (.inr (by decide +kernel))
  | zero s => rw [hx] at h; nomatch h
  | finite s m e hm => rw [hx] at h; nomatch h

end Single

/-! ## From one width to the other and back -/

theorem exists_wide {u : UnpackedFloat} {d : Decimal} (h : Stands d u)
    (hfits : Fits .binary32 u) : ∃ w, Stands d w ∧ Fits .binary64 w := by
  cases u with
  | notANumber => nomatch h.finite
  | infinity s => nomatch h.finite
  | zero s => exact ⟨.zero s, h, trivial⟩
  | finite s m e hm =>
    obtain ⟨hlt, hlow, -, hhigh⟩ := hfits
    have hlt' : m < 2 ^ 24 := hlt
    have hlow' : -149 ≤ e := hlow
    have hhigh' : e + 23 ≤ 127 := hhigh
    obtain ⟨m', e', hm', hfits', -, hvalue⟩ :=
      full_of_lt (f := .binary64) (m := m) (e := e) hm
        (show m < 2 ^ 53 by omega) (show (-1074 : Int) + 52 ≤ e by omega)
        (show e + 52 ≤ 1023 by omega)
    refine ⟨.finite s m' e' hm', ⟨rfl, ?_, ?_⟩, hfits'⟩
    · rw [h.value]
      exact hvalue
    · rw [h.negative]
      cases s <;> rfl

theorem narrow_widen (x : Float32) : narrow (widen x) = x := by
  unfold widen
  split
  · rename_i d hd
    obtain ⟨w, hw, hfits⟩ := exists_wide (stands_ofFloat32? hd) (fits_single x)
    have hwide := hw.unpack_toFloat hfits
    obtain ⟨c, hc⟩ : ∃ c, ofFloat? d.toFloat = some c := by
      rw [← Option.isSome_iff_exists, ofFloat?_eq, hwide, ofUnpacked?_isSome, hw.finite]
    have hback := stands_ofFloat? hc
    rw [hwide] at hback
    unfold narrow
    rw [hc]
    change c.toFloat32 = x
    rw [toFloat32_congr (hback.negative.trans hw.negative.symm) (hback.value.trans hw.value.symm)]
    exact toFloat32_ofFloat32? hd
  · rename_i hd
    rcases infinite_single hd with rfl | rfl | rfl <;> decide +kernel

end TracePlayback.Decimal
