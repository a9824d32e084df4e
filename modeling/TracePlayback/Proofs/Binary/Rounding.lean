import TracePlayback.Proofs.Binary.Packing

/-!
# Rounding depends on the value alone

A positive rational is rounded to the digits that a format has room for. The computation gets it as
a whole mantissa, an exponent and a word on what the mantissa leaves out. There are many such
descriptions of one value; all are rounded alike.

* `Tells m a x`: `m` is the whole part of `x`, and `a` says where `x` lies above it.
* `target f v`: the exponent of the digit to which a format rounds the value `v`.
* `nearest f s v`: the value rounded, with a sign.
* `roundWithAccuracy_eq`: whatever describes the value to at least that digit is rounded to it.
* `nearest_eq`: a value that the format can write is written as it is.
* `nearest_small`: a value of less than half the least number vanishes.
-/
namespace TracePlayback.Binary

open Float.Model (Format UnpackedFloat totalExponent)
open Float.Model.UnpackedFloat

variable {f : Format} {m m' : Nat} {e e' : Int} {a a' : Accuracy} {x v : ℚ}

/-! ## What a mantissa leaves out -/

/-- The mantissa is the whole part, and the accuracy tells the rest from nothing and from a half. -/
def Tells (m : Nat) : Accuracy → ℚ → Prop
  | .exact, x => x = m
  | .inexact .lt, x => m < x ∧ x < m + 1 / 2
  | .inexact .eq, x => x = m + 1 / 2
  | .inexact .gt, x => m + 1 / 2 < x ∧ x < m + 1

theorem Tells.le (h : Tells m a x) : m ≤ x := by
  rcases a with _ | _ | _ | _ <;> simp only [Tells] at h <;> linarith

theorem Tells.lt (h : Tells m a x) : x < m + 1 := by
  rcases a with _ | _ | _ | _ <;> simp only [Tells] at h <;> linarith

/-- A value has one whole part and one place above it. -/
theorem Tells.unique (h : Tells m a x) (h' : Tells m' a' x) : m = m' ∧ a = a' := by
  have h1 : (m : ℚ) < m' + 1 := lt_of_le_of_lt h.le h'.lt
  have h2 : (m' : ℚ) < m + 1 := lt_of_le_of_lt h'.le h.lt
  norm_cast at h1 h2
  obtain rfl : m = m' := by omega
  refine ⟨rfl, ?_⟩
  rcases a with _ | _ | _ | _ <;> rcases a' with _ | _ | _ | _ <;> simp only [Tells] at h h' <;>
    first | rfl | linarith

/-- An extended mantissa tells a value by its two residual bits. -/
theorem tells_ofMantissaAndAccuracy (h : Tells m a x) :
    Tells (ExtendedMantissa.ofMantissaAndAccuracy m a).mantissa
      (ExtendedMantissa.ofMantissaAndAccuracy m a).accuracy x := by
  rcases a with _ | _ | _ | _ <;> exact h

/-- One digit less: the old digit is the new half, the rest is beyond it. -/
theorem tells_shiftRightOne {em : ExtendedMantissa} (h : Tells em.mantissa em.accuracy x) :
    Tells em.shiftRightOne.mantissa em.shiftRightOne.accuracy (x / 2) := by
  obtain ⟨m, r, s⟩ := em
  have hm : (m : ℚ) = (m % 2 : Nat) + 2 * (m / 2 : Nat) := by
    norm_cast
    omega
  rcases Nat.mod_two_eq_zero_or_one m with hbit | hbit <;> rw [hbit] at hm <;> push_cast at hm <;>
    cases r <;> cases s <;>
    simp only [ExtendedMantissa.shiftRightOne, ExtendedMantissa.accuracy, hbit, bne_self_eq_false,
      show (1 != 0) = true from rfl, Bool.or_true, Bool.or_false, Tells] at h ⊢ <;>
    first
    | linarith
    | constructor <;> linarith

theorem tells_shiftRight {em : ExtendedMantissa} (h : Tells em.mantissa em.accuracy x) (n : Nat) :
    Tells (em >>> n).mantissa (em >>> n).accuracy (x / 2 ^ n) := by
  change Tells (n.repeat ExtendedMantissa.shiftRightOne em).mantissa
    (n.repeat ExtendedMantissa.shiftRightOne em).accuracy _
  induction n with
  | zero => simpa [Nat.repeat] using h
  | succ n ih =>
    rw [Nat.repeat, pow_succ, ← div_div]
    exact tells_shiftRightOne ih

/-! ## The digit to which a value is rounded -/

/-- The exponent of the last digit that a format has for a value. -/
def target (f : Format) (v : ℚ) : Int := f.targetExponent (Int.log 2 v + 1)

theorem target_eq (f : Format) (v : ℚ) :
    target f v = max (Int.log 2 v - f.mantissaBitsWithoutImplicit) f.minExponent := by
  rw [target, Format.targetExponent, mantissaBits_eq]
  congr 1
  push_cast
  omega

theorem log_eq_iff {r : ℚ} (hr : 0 < r) (k : Int) :
    Int.log 2 r = k ↔ 2 ^ k ≤ r ∧ r < 2 ^ (k + 1) := by
  have h1 := Int.zpow_le_iff_le_log (b := 2) (by decide) (x := k) hr
  have h2 := Int.lt_zpow_iff_log_lt (b := 2) (by decide) (x := k + 1) hr
  push_cast at h1 h2
  rw [h1, h2]
  omega

/-- The whole part of a value, unless it is zero, has its first digit where the value has it. -/
theorem log_of_tells (h : Tells m a (v / 2 ^ e)) (hm : 0 < m) : Int.log 2 v = m.log2 + e := by
  have hpow : (0 : ℚ) < 2 ^ e := by positivity
  have hle := (le_div_iff₀ hpow).mp h.le
  have hlt := (div_lt_iff₀ hpow).mp h.lt
  have hlo : (2 : ℚ) ^ m.log2 ≤ m := by exact_mod_cast Nat.log2_self_le hm.ne'
  have hhi : (m : ℚ) + 1 ≤ 2 ^ (m.log2 + 1) := by exact_mod_cast Nat.lt_log2_self (n := m)
  have hv : 0 < v := lt_of_lt_of_le (by positivity) hle
  have hnext : (m.log2 : Int) + e + 1 = (m.log2 + 1 : Nat) + e := by
    push_cast
    ring
  rw [log_eq_iff hv, hnext, zpow_add₀ (by norm_num), zpow_add₀ (by norm_num), zpow_natCast,
    zpow_natCast]
  exact ⟨le_trans (mul_le_mul_of_nonneg_right hlo hpow.le) hle,
    lt_of_lt_of_le hlt (mul_le_mul_of_nonneg_right hhi hpow.le)⟩

/-- A mantissa that has at least the digits of the format tells which digit is the last. -/
theorem targetExponent_of_tells (h : Tells m a (v / 2 ^ e)) (hv : 0 < v) (he : e ≤ target f v) :
    f.targetExponent (totalExponent m e) = target f v := by
  rcases Nat.eq_zero_or_pos m with rfl | hm
  · -- the value is less than one unit, so the least exponent is not below that unit
    have hpow : (0 : ℚ) < 2 ^ e := by positivity
    have hlt : v < 2 ^ e := by simpa using (div_lt_iff₀ hpow).mp h.lt
    have hlog := (Int.lt_zpow_iff_log_lt (b := 2) (by decide) (x := e) hv).mp
      (by exact_mod_cast hlt)
    rw [target_eq] at he ⊢
    simp only [Format.targetExponent, totalExponent, mantissaBits_eq, Nat.log2_zero]
    omega
  · rw [target, log_of_tells h hm, totalExponent]
    congr 1
    ring

theorem shiftToTargetExponent_tells (h : Tells m a (v / 2 ^ e)) (hv : 0 < v) (he : e ≤ target f v) :
    (shiftToTargetExponent f m e a).2 = target f v ∧
      Tells (shiftToTargetExponent f m e a).1.mantissa (shiftToTargetExponent f m e a).1.accuracy
        (v / 2 ^ target f v) := by
  have hshift : e + ((target f v - e).toNat : Int) = target f v := by omega
  unfold shiftToTargetExponent shiftToExponent
  simp only [targetExponent_of_tells h hv he, hshift, true_and]
  have htells := tells_shiftRight (tells_ofMantissaAndAccuracy h) (target f v - e).toNat
  rwa [div_div, ← zpow_natCast, ← zpow_add₀ (by norm_num), hshift] at htells

theorem roundWithAccuracy_congr (s : Sign) (h : Tells m a (v / 2 ^ e))
    (h' : Tells m' a' (v / 2 ^ e')) (hv : 0 < v) (he : e ≤ target f v) (he' : e' ≤ target f v) :
    roundWithAccuracy f s m e a = roundWithAccuracy f s m' e' a' := by
  obtain ⟨hexp, htells⟩ := shiftToTargetExponent_tells h hv he
  obtain ⟨hexp', htells'⟩ := shiftToTargetExponent_tells h' hv he'
  obtain ⟨hmant, hacc⟩ := htells.unique htells'
  unfold roundWithAccuracy
  simp only [ExtendedMantissa.roundedMantissa, hexp, hexp', hmant, hacc]

/-! ## The nearest number of a format -/

/-- The number of a format that is nearest to a value, with a sign: the quotient of the value's
numerator and denominator, rounded once. -/
def nearest (f : Format) (s : Sign) (v : ℚ) : UnpackedFloat :=
  let (m, e, a) := divCore f v.num.toNat 0 v.den 0
  roundWithAccuracy f s m e a

theorem tells_div (n : Nat) {d : Nat} (hd : 0 < d) :
    Tells (n / d) (accuracyOfFraction (n % d) d) (n / d) := by
  have hpos : (0 : ℚ) < d := by exact_mod_cast hd
  have hmod : ((n % d : Nat) : ℚ) < d := by exact_mod_cast Nat.mod_lt n hd
  have hdiv : (n : ℚ) / d = (n / d : Nat) + (n % d : Nat) / d := by
    rw [div_eq_iff hpos.ne', add_mul, div_mul_cancel₀ _ hpos.ne']
    exact_mod_cast (Nat.div_add_mod' n d).symm
  have hlt : ((n % d : Nat) : ℚ) / d < 1 := (div_lt_one hpos).mpr hmod
  rw [hdiv]
  generalize n % d = r at hlt ⊢
  unfold accuracyOfFraction
  split
  · rename_i hr
    simp [Tells, hr]
  · rename_i hr
    have hrest : 0 < (r : ℚ) / d := div_pos (by exact_mod_cast Nat.pos_of_ne_zero hr) hpos
    rcases Nat.lt_trichotomy (2 * r) d with h | h | h
    · rw [compare_lt_iff_lt.mpr h]
      have hhalf : (r : ℚ) / d < 1 / 2 := by
        rw [div_lt_div_iff₀ hpos (by norm_num)]
        exact_mod_cast (by omega : r * 2 < 1 * d)
      exact ⟨by linarith, by linarith⟩
    · rw [compare_eq_iff_eq.mpr h]
      have hhalf : (r : ℚ) / d = 1 / 2 := by
        rw [div_eq_div_iff hpos.ne' (by norm_num)]
        exact_mod_cast (by omega : r * 2 = 1 * d)
      rw [hhalf]
      rfl
    · rw [compare_gt_iff_gt.mpr h]
      have hhalf : 1 / 2 < (r : ℚ) / d := by
        rw [div_lt_div_iff₀ (by norm_num) hpos]
        exact_mod_cast (by omega : 1 * d < r * 2)
      exact ⟨by linarith, by linarith⟩

theorem divCore_tells (hm : 0 < m) (hm' : 0 < m') (hv : v = m * 2 ^ e / (m' * 2 ^ e')) :
    (divCore f m e m' e').2.1 ≤ target f v ∧
      Tells (divCore f m e m' e').1 (divCore f m e m' e').2.2
        (v / 2 ^ (divCore f m e m' e').2.1) := by
  have hpos : (0 : ℚ) < m' := by exact_mod_cast hm'
  have hsplit : v = m / m' * 2 ^ (e - e') := by
    rw [hv, zpow_sub₀ (by norm_num)]
    field_simp
  obtain ⟨t, ht⟩ : ∃ t,
      min (e - e') (f.targetExponent (totalExponent m e - totalExponent m' e')) = t := ⟨_, rfl⟩
  have hlog : totalExponent m e - totalExponent m' e' ≤ Int.log 2 v + 1 := by
    have hlo : (2 : ℚ) ^ m.log2 ≤ m := by exact_mod_cast Nat.log2_self_le hm.ne'
    have hhi : (m' : ℚ) ≤ 2 ^ (m'.log2 + 1) := by exact_mod_cast (Nat.lt_log2_self (n := m')).le
    have hle : (2 : ℚ) ^ ((m.log2 : Int) - (m'.log2 + 1 : Nat) + (e - e')) ≤ v := by
      rw [hsplit, zpow_add₀ (by norm_num), zpow_sub₀ (by norm_num), zpow_natCast, zpow_natCast]
      gcongr
    have hv0 : 0 < v := lt_of_lt_of_le (by positivity) hle
    have hk := (Int.zpow_le_iff_le_log (b := 2) (by decide) hv0).mp (by rwa [Nat.cast_ofNat])
    unfold totalExponent
    omega
  have hle : t ≤ target f v := by
    rw [target]
    simp only [Format.targetExponent] at ht ⊢
    omega
  unfold divCore
  simp only [ht]
  refine ⟨hle, ?_⟩
  have hshift : v / 2 ^ t = ((m <<< (e - e' - t).toNat : Nat) : ℚ) / m' := by
    rw [hsplit, Nat.shiftLeft_eq]
    push_cast
    rw [← zpow_natCast, show (((e - e' - t).toNat : Nat) : Int) = e - e' - t by omega,
      zpow_sub₀ (by norm_num) (e - e') t]
    ring
  rw [hshift]
  exact tells_div _ hm'

theorem nearest_tells (f : Format) (s : Sign) (hv : 0 < v) :
    ∃ m e a, nearest f s v = roundWithAccuracy f s m e a ∧
      Tells m a (v / 2 ^ e) ∧ e ≤ target f v := by
  have hnum : 0 < v.num := Rat.num_pos.mpr hv
  have hself : v = (v.num.toNat : ℚ) * 2 ^ (0 : Int) / (v.den * 2 ^ (0 : Int)) := by
    rw [zpow_zero, mul_one, mul_one, ← Int.cast_natCast, Int.toNat_of_nonneg hnum.le,
      Rat.num_div_den]
  obtain ⟨hle, htells⟩ := divCore_tells (f := f) (by omega) v.den_pos hself
  exact ⟨_, _, _, rfl, htells, hle⟩

/-- Whatever describes the value to at least the last digit of the format is rounded to the nearest
number. -/
theorem roundWithAccuracy_eq (s : Sign) (h : Tells m a (v / 2 ^ e)) (hv : 0 < v)
    (he : e ≤ target f v) : roundWithAccuracy f s m e a = nearest f s v := by
  obtain ⟨m', e', a', hnearest, htells, hle⟩ := nearest_tells f s hv
  rw [hnearest]
  exact roundWithAccuracy_congr s h htells hv he hle

/-! ## Operations -/

theorem value_pos (hm : 0 < m) (e : Int) : (0 : ℚ) < m * 2 ^ e := by
  have : (0 : ℚ) < m := by exact_mod_cast hm
  positivity

theorem log_value (hm : 0 < m) (e : Int) : Int.log 2 ((m : ℚ) * 2 ^ e) = m.log2 + e := by
  refine log_of_tells (m := m) (a := .exact) ?_ hm
  rw [Tells, mul_div_cancel_right₀ _ (by positivity)]

theorem target_value (f : Format) (hm : 0 < m) (e : Int) :
    target f (m * 2 ^ e) = f.targetExponent (totalExponent m e) := by
  rw [target, log_value hm, totalExponent]
  congr 1
  ring

theorem div_finite (s s' : Sign) (hm : 0 < m) (hm' : 0 < m') (e e' : Int) :
    UnpackedFloat.div f (.finite s m e hm) (.finite s' m' e' hm') =
      nearest f (s / s') (m * 2 ^ e / (m' * 2 ^ e')) := by
  obtain ⟨hle, htells⟩ :=
    divCore_tells (f := f) hm hm' (Eq.refl ((m : ℚ) * 2 ^ e / (m' * 2 ^ e')))
  exact roundWithAccuracy_eq _ htells (div_pos (value_pos hm e) (value_pos hm' e')) hle

theorem mul_finite (s s' : Sign) (hm : 0 < m) (hm' : 0 < m') (e e' : Int)
    (hdigits : f.mantissaBitsWithoutImplicit ≤ (m * m').log2) :
    UnpackedFloat.mul f (.finite s m e hm) (.finite s' m' e' hm') =
      nearest f (s * s') (m * 2 ^ e * (m' * 2 ^ e')) := by
  have hvalue : (m : ℚ) * 2 ^ e * (m' * 2 ^ e') = (m * m' : Nat) * 2 ^ (e + e') := by
    rw [zpow_add₀ (by norm_num)]
    push_cast
    ring
  have hpos := Nat.mul_pos hm hm'
  rw [hvalue]
  refine roundWithAccuracy_eq _ ?_ (value_pos hpos _) ?_
  · rw [Tells, mul_div_cancel_right₀ _ (by positivity)]
  · rw [target_eq, log_value hpos]
    omega

/-- An exponent that is too large is made smaller before a number is rounded. -/
theorem round_eq (s : Sign) (hm : 0 < m) (e : Int) :
    round f s m e = nearest f s (m * 2 ^ e) := by
  unfold UnpackedFloat.round decreaseExponent
  simp only [← target_value f hm e]
  refine roundWithAccuracy_eq s ?_ (value_pos hm e) (by omega)
  rw [Tells, Nat.shiftLeft_eq, zpow_sub₀ (by norm_num), zpow_natCast]
  push_cast
  field_simp

theorem shiftToTargetExponent_self (h : f.targetExponent (totalExponent m e) = e) (a : Accuracy) :
    shiftToTargetExponent f m e a = (ExtendedMantissa.ofMantissaAndAccuracy m a, e) := by
  unfold shiftToTargetExponent shiftToExponent
  simp only [h, Int.sub_self, Int.toNat_zero, Int.natCast_zero, Int.add_zero]
  rfl

theorem nearest_eq (s : Sign) (hm : 0 < m) (hfits : Fits f (.finite s m e hm)) :
    nearest f s (m * 2 ^ e) = .finite s m e hm := by
  obtain ⟨hlt, hge, hnormal, -⟩ := hfits
  have hself : f.targetExponent (totalExponent m e) = e := by
    have hhi := (Nat.log2_lt hm.ne').mpr hlt
    have hlo := hnormal.imp_left (Nat.le_log2 hm.ne').mpr
    rw [mantissaBits_eq] at hhi
    simp only [Format.targetExponent, totalExponent, mantissaBits_eq]
    omega
  have htells : Tells m .exact (m * 2 ^ e / 2 ^ e) := by
    rw [Tells, mul_div_cancel_right₀ _ (by positivity)]
  rw [← roundWithAccuracy_eq s htells (value_pos hm e) (by rw [target_value f hm, hself])]
  unfold roundWithAccuracy
  simp only [shiftToTargetExponent_self hself, ExtendedMantissa.ofMantissaAndAccuracy,
    ExtendedMantissa.roundedMantissa, ExtendedMantissa.accuracy, Accuracy.roundToNearestEven]
  rw [dif_neg hm.ne']

/-- A value of less than half the least number vanishes. -/
theorem nearest_small (s : Sign) (hv : 0 < v) (hsmall : v < 2 ^ (f.minExponent - 1)) :
    nearest f s v = .zero s := by
  have hself : f.targetExponent (totalExponent 0 f.minExponent) = f.minExponent := by
    simp only [Format.targetExponent, totalExponent, mantissaBits_eq, Nat.log2_zero]
    omega
  have hpow : (0 : ℚ) < 2 ^ f.minExponent := by positivity
  have htells : Tells 0 (.inexact .lt) (v / 2 ^ f.minExponent) := by
    rw [zpow_sub₀ (by norm_num), zpow_one] at hsmall
    refine ⟨by simpa using div_pos hv hpow, ?_⟩
    rw [div_lt_iff₀ hpow]
    push_cast
    linarith
  rw [← roundWithAccuracy_eq s htells hv (by rw [target_eq]; exact le_max_right _ _)]
  unfold roundWithAccuracy
  simp only [shiftToTargetExponent_self hself, ExtendedMantissa.ofMantissaAndAccuracy,
    ExtendedMantissa.roundedMantissa, ExtendedMantissa.accuracy, Accuracy.roundToNearestEven]
  rw [dif_pos trivial]

theorem nearest_zero (f : Format) (s : Sign) : nearest f s 0 = .zero s := by
  have hround : ∀ e : Int, roundWithAccuracy f s 0 e .exact = .zero s := by
    intro e
    have hzero : ∀ (e : Int), (shiftToTargetExponent f 0 e .exact).1.mantissa = 0 ∧
        (shiftToTargetExponent f 0 e .exact).1.accuracy = .exact := by
      intro e
      have hself : Tells 0 .exact 0 := rfl
      have h := tells_shiftRight (tells_ofMantissaAndAccuracy hself)
        (f.targetExponent (totalExponent 0 e) - e).toNat
      rw [zero_div] at h
      exact h.unique hself
    unfold roundWithAccuracy
    simp only [ExtendedMantissa.roundedMantissa, hzero, Accuracy.roundToNearestEven]
    rfl
  unfold nearest divCore accuracyOfFraction
  simp only [Rat.num_zero, Int.toNat_zero, Nat.zero_shiftLeft, Nat.zero_div, Nat.zero_mod, if_true]
  exact hround _

theorem roundedMantissa_le (em : ExtendedMantissa) :
    em.mantissa ≤ em.roundedMantissa ∧ em.roundedMantissa ≤ em.mantissa + 1 := by
  obtain ⟨m, r, s⟩ := em
  cases r <;> cases s <;>
    simp only [ExtendedMantissa.roundedMantissa, ExtendedMantissa.accuracy,
      Accuracy.roundToNearestEven] <;> omega

/-- Unless the exponent is the least one, all digits of the mantissa are in use. -/
theorem full_of_tells (hv : 0 < v)
    (htarget : target f v = Int.log 2 v - f.mantissaBitsWithoutImplicit)
    (h : Tells m a (v / 2 ^ target f v)) : 2 ^ f.mantissaBitsWithoutImplicit ≤ m := by
  have hself := (Int.zpow_le_iff_le_log (b := 2) (r := v) (by decide) hv).mpr le_rfl
  have hfull : (2 : ℚ) ^ f.mantissaBitsWithoutImplicit ≤ v / 2 ^ target f v := by
    rw [le_div_iff₀ (by positivity), htarget, ← zpow_natCast, ← zpow_add₀ (by norm_num),
      add_sub_cancel]
    rwa [Nat.cast_ofNat] at hself
  have hlt := lt_of_le_of_lt hfull h.lt
  norm_cast at hlt
  omega

/-- A value of a size for which there is no exponent is packed as an infinity. -/
theorem nearest_large (s : Sign) (hlarge : 2 ^ (f.exponentBias + 1) ≤ v) :
    pack f (nearest f s v) = packedInfinity f s := by
  have hv : 0 < v := lt_of_lt_of_le (by positivity) hlarge
  have hlog : (f.exponentBias : Int) + 1 ≤ Int.log 2 v := by
    refine (Int.zpow_le_iff_le_log (b := 2) (by decide) hv).mp ?_
    rw [Nat.cast_ofNat]
    exact_mod_cast hlarge
  have hmin := minExponent_eq f
  have htarget : target f v = Int.log 2 v - f.mantissaBitsWithoutImplicit := by
    rw [target_eq]
    omega
  obtain ⟨m, e, a, hnearest, htells, hle⟩ := nearest_tells f s hv
  obtain ⟨hexp, hfirst⟩ := shiftToTargetExponent_tells htells hv hle
  have hfull := (full_of_tells hv htarget hfirst).trans (roundedMantissa_le _).1
  rw [hnearest]
  unfold roundWithAccuracy
  simp only [hexp]
  generalize (shiftToTargetExponent f m e a).1.roundedMantissa = r at hfull ⊢
  -- the second shift only drops a carry
  have hr : 0 < r := lt_of_lt_of_le (Nat.two_pow_pos _) hfull
  have hw := value_pos hr (target f v)
  have hlogw := log_value hr (target f v)
  have hlogr := (Nat.le_log2 hr.ne').mpr hfull
  have hagain : target f (r * 2 ^ target f v) =
      Int.log 2 ((r : ℚ) * 2 ^ target f v) - f.mantissaBitsWithoutImplicit := by
    rw [target_eq]
    omega
  obtain ⟨hexp', hsecond⟩ := shiftToTargetExponent_tells (m := r) (a := .exact) (f := f)
    (by rw [Tells, mul_div_cancel_right₀ _ (by positivity)]) hw (by omega)
  have hfull' := full_of_tells hw hagain hsecond
  rw [dif_neg (by have := Nat.two_pow_pos f.mantissaBitsWithoutImplicit; omega)]
  exact pack_of_large s _ (by omega)

end TracePlayback.Binary
