import TracePlayback.Proofs.Single.Exact

/-!
# Rounding keeps the order

A result is rounded to a number next to it that a single can have, so none of these numbers is
passed: what is at most such a number before it is rounded is at most that number afterwards, and
what is at least that number stays so.

* `Writable`: so many grains can be written with the digits of a single.
* `Rounds v g`: rounding has made `g` grains of the value `v`, in grains, and has passed no number
  that can be written.
* `rounds_roundWithAccuracy`, `rounds_round`: the digits that are dropped decide between two
  neighbours.
* `rounds_mul`, `rounds_sub`, `rounds_add`: so the operations on singles keep the order.
-/
namespace TracePlayback.Single

open Float.Model (Format UnpackedFloat totalExponent)
open Float.Model.UnpackedFloat

/-- So many grains can be written with 24 digits and zeros after them. -/
def Writable (n : Int) : Prop := ∃ m k : Nat, m < 2 ^ 24 ∧ n.natAbs = m * 2 ^ k

/-- Rounding a value in grains to a number of grains has passed no number that can be written. -/
structure Rounds (v : ℚ) (g : Int) : Prop where
  le : ∀ {n : Int}, Writable n → v ≤ n → g ≤ n
  ge : ∀ {n : Int}, Writable n → (n : ℚ) ≤ v → n ≤ g

theorem Writable.neg {n : Int} (h : Writable n) : Writable (-n) := by
  obtain ⟨m, k, hm, hn⟩ := h
  exact ⟨m, k, hm, by rw [Int.natAbs_neg, hn]⟩

theorem writable_mul_pow {m : Nat} (h : m ≤ 2 ^ 24) (k : Nat) : Writable (m * 2 ^ k : Nat) := by
  rcases Nat.lt_or_eq_of_le h with hlt | rfl
  · exact ⟨m, k, hlt, Int.natAbs_natCast _⟩
  · exact ⟨1, 24 + k, by decide, by rw [Int.natAbs_natCast, Nat.one_mul, Nat.pow_add]⟩

theorem writable_zero : Writable 0 := ⟨0, 0, by decide, rfl⟩

namespace Rounds

variable {v : ℚ} {g n : Int}

/-- What can be written is not changed. -/
theorem eq (h : Rounds v g) (hn : Writable n) (hv : v = n) : g = n :=
  Int.le_antisymm (h.le hn hv.le) (h.ge hn hv.ge)

theorem refl (g : Int) : Rounds g g where
  le _ h := by exact_mod_cast h
  ge _ h := by exact_mod_cast h

theorem neg (h : Rounds v g) : Rounds (-v) (-g) where
  le hn hle := by
    have := h.ge hn.neg (by push_cast; linarith)
    omega
  ge hn hle := by
    have := h.le hn.neg (by push_cast; linarith)
    omega

/-- Beside a number on the positive side only such numbers have to be put. -/
theorem of_nonneg {g : Nat} (hv : 0 ≤ v)
    (h : ∀ m k : Nat, m < 2 ^ 24 → (v ≤ (m * 2 ^ k : Nat) → g ≤ m * 2 ^ k) ∧
      (((m * 2 ^ k : Nat) : ℚ) ≤ v → m * 2 ^ k ≤ g)) : Rounds v g where
  le := by
    rintro n ⟨m, k, hm, hn⟩ hle
    have hpos : 0 ≤ n := by exact_mod_cast hv.trans hle
    obtain rfl : n = (m * 2 ^ k : Nat) := by omega
    exact_mod_cast (h m k hm).1 (by exact_mod_cast hle)
  ge := by
    rintro n ⟨m, k, hm, hn⟩ hle
    rcases Int.lt_or_le n 0 with hneg | hpos
    · omega
    · obtain rfl : n = (m * 2 ^ k : Nat) := by omega
      exact_mod_cast (h m k hm).2 (by exact_mod_cast hle)

end Rounds

/-! ## Rounding -/

variable {m : Nat} {e : Int}

/-- The digits that are dropped decide between two neighbours, and if there are none it is the
mantissa itself. -/
theorem roundedMantissa_between (m : Nat) (e : Int) (n : Nat) :
    (m ≤ n * 2 ^ surplus m e →
        (shiftToTargetExponent Format.binary32 m e .exact).1.roundedMantissa ≤ n) ∧
      (n * 2 ^ surplus m e ≤ m →
        n ≤ (shiftToTargetExponent Format.binary32 m e .exact).1.roundedMantissa) := by
  obtain ⟨hlo, hhi⟩ :=
    Binary.roundedMantissa_le (shiftToTargetExponent Format.binary32 m e .exact).1
  rw [(shiftToTargetExponent_eq m e).1] at hlo hhi
  have hpos := Nat.two_pow_pos (surplus m e)
  have hsplit := Nat.div_add_mod' m (2 ^ surplus m e)
  constructor
  · intro h
    rcases Nat.eq_zero_or_pos (m % 2 ^ surplus m e) with hzero | hrest
    · rw [roundedMantissa_shiftToTargetExponent (by rw [hzero]; exact hpos)]
      exact Nat.div_le_of_le_mul (by rwa [Nat.mul_comm])
    · have hlt : m / 2 ^ surplus m e < n := by
        rw [← Nat.mul_lt_mul_right hpos]
        omega
      omega
  · exact fun h => ((Nat.le_div_iff_mul_le hpos).mpr h).trans hlo

/-- A mantissa that is rounded up to 25 digits ends in a zero, and that is dropped. -/
theorem pow_surplus_dvd {r : Nat} {t : Int} (hr : r ≤ 2 ^ 24) (ht : -149 ≤ t) :
    2 ^ surplus r t ∣ r := by
  rcases Nat.eq_zero_or_pos r with rfl | hpos
  · exact Nat.dvd_zero _
  rcases Nat.lt_or_eq_of_le hr with hlt | rfl
  · have hlog := (Nat.log2_lt hpos.ne').mpr hlt
    rw [show surplus r t = 0 by unfold surplus totalExponent; omega]
    exact Nat.one_dvd r
  · refine Nat.pow_dvd_pow 2 ?_
    rw [surplus, totalExponent, Nat.log2_two_pow]
    omega

/-- Only the first of the two shifts rounds. -/
theorem grainsOf_roundWithAccuracy (s : Sign) (hm : 0 < m) (e : Int) :
    grainsOf (roundWithAccuracy Format.binary32 s m e .exact) =
      s.apply ((shiftToTargetExponent Format.binary32 m e .exact).1.roundedMantissa *
        2 ^ (e + surplus m e + 149).toNat : Nat) := by
  have hge : -149 ≤ e + surplus m e := by unfold surplus; omega
  have hr : (shiftToTargetExponent Format.binary32 m e .exact).1.roundedMantissa ≤ 2 ^ 24 := by
    refine (roundedMantissa_between m e _).1 ?_
    exact ((Nat.div_lt_iff_lt_mul (Nat.two_pow_pos _)).mp (div_surplus_bounds hm e).1).le
  unfold roundWithAccuracy
  simp only
  rw [← (shiftToTargetExponent_eq m e).2] at hge ⊢
  generalize (shiftToTargetExponent Format.binary32 m e .exact).1.roundedMantissa = r at hr ⊢
  generalize (shiftToTargetExponent Format.binary32 m e .exact).2 = t at hge ⊢
  obtain ⟨hmant, hexp⟩ := shiftToTargetExponent_eq r t
  have hwhole := Nat.div_mul_cancel (pow_surplus_dvd hr hge)
  split
  · rename_i hzero
    rw [hmant] at hzero
    rw [hzero, Nat.zero_mul] at hwhole
    rw [← hwhole, Nat.zero_mul]
    cases s <;> rfl
  · simp only [grainsOf, hmant, hexp]
    rw [show (t + surplus r t + 149).toNat = surplus r t + (t + 149).toNat by omega, Nat.pow_add,
      ← Nat.mul_assoc, hwhole]

/-- The numbers with fewer digits are among those with as many, or they are all less. -/
theorem mul_pow_between {r p n : Nat}
    (hr : ∀ q, (m ≤ q * 2 ^ n → r ≤ q) ∧ (q * 2 ^ n ≤ m → q ≤ r))
    (hfull : 0 < p → 2 ^ 23 * 2 ^ n ≤ m) {q : Nat} (hq : q < 2 ^ 24) (k : Nat) :
    (m * 2 ^ p ≤ q * 2 ^ k * 2 ^ n → r * 2 ^ p ≤ q * 2 ^ k) ∧
      (q * 2 ^ k * 2 ^ n ≤ m * 2 ^ p → q * 2 ^ k ≤ r * 2 ^ p) := by
  have hp := Nat.two_pow_pos p
  rcases Nat.lt_or_ge k p with hk | hk
  · have hm := hfull (by omega)
    have hless : q * 2 ^ k < 2 ^ 23 * 2 ^ p :=
      calc q * 2 ^ k < 2 ^ 24 * 2 ^ k := Nat.mul_lt_mul_of_pos_right hq (Nat.two_pow_pos k)
        _ = 2 ^ 23 * 2 ^ (k + 1) := by rw [Nat.pow_succ]; omega
        _ ≤ 2 ^ 23 * 2 ^ p := Nat.mul_le_mul_left _ (Nat.pow_le_pow_right (by decide) hk)
    have hmore : q * 2 ^ k * 2 ^ n < m * 2 ^ p :=
      calc q * 2 ^ k * 2 ^ n < 2 ^ 23 * 2 ^ p * 2 ^ n :=
            Nat.mul_lt_mul_of_pos_right hless (Nat.two_pow_pos n)
        _ = 2 ^ 23 * 2 ^ n * 2 ^ p := Nat.mul_right_comm ..
        _ ≤ m * 2 ^ p := Nat.mul_le_mul_right _ hm
    exact ⟨fun h => absurd h (Nat.not_le.mpr hmore),
      fun _ => hless.le.trans (Nat.mul_le_mul_right _ ((hr _).2 hm))⟩
  · rw [← Nat.sub_add_cancel hk, Nat.pow_add, ← Nat.mul_assoc, Nat.mul_right_comm _ _ (2 ^ n),
      Nat.mul_le_mul_right_iff hp, Nat.mul_le_mul_right_iff hp, Nat.mul_le_mul_right_iff hp,
      Nat.mul_le_mul_right_iff hp]
    exact hr _

/-- A mantissa that has no digits to spare is rounded past no number that can be written. -/
theorem rounds_roundWithAccuracy (s : Sign) (hm : 0 < m)
    (he : e ≤ max (totalExponent m e - 24) (-149)) :
    Rounds (s.apply m * 2 ^ (e + 149))
      (grainsOf (roundWithAccuracy Format.binary32 s m e .exact)) := by
  suffices h : Rounds ((m : ℚ) * 2 ^ (e + 149))
      ((shiftToTargetExponent Format.binary32 m e .exact).1.roundedMantissa *
        2 ^ (e + surplus m e + 149).toNat : Nat) by
    rw [grainsOf_roundWithAccuracy s hm e]
    cases s with
    | positive => exact_mod_cast h
    | negative => simpa [Sign.apply] using h.neg
  have hge : -149 ≤ e + surplus m e := by unfold surplus; omega
  obtain ⟨p, hp⟩ : ∃ p : Nat, e + surplus m e + 149 = p :=
    ⟨_, (Int.toNat_of_nonneg (by omega)).symm⟩
  have hfull : 0 < p → 2 ^ 23 * 2 ^ surplus m e ≤ m := fun h =>
    (Nat.le_div_iff_mul_le (Nat.two_pow_pos _)).mp ((div_surplus_bounds hm e).2 he (by omega))
  have hvalue : (m : ℚ) * 2 ^ (e + 149) * 2 ^ surplus m e = m * 2 ^ p := by
    rw [mul_assoc, ← zpow_natCast, ← zpow_add₀ (by norm_num), ← zpow_natCast, ← hp]
    congr 2
    ring
  have hpow : (0 : ℚ) < 2 ^ surplus m e := by positivity
  rw [hp, Int.toNat_natCast]
  refine .of_nonneg (by positivity) fun q k hq => ?_
  obtain ⟨hle, hge⟩ := mul_pow_between (roundedMantissa_between m e) hfull hq k
  constructor
  · intro h
    have hscaled := mul_le_mul_of_nonneg_right h hpow.le
    rw [hvalue] at hscaled
    exact hle (by exact_mod_cast hscaled)
  · intro h
    have hscaled := mul_le_mul_of_nonneg_right h hpow.le
    rw [hvalue] at hscaled
    exact hge (by exact_mod_cast hscaled)

/-- Zeros at the end of a mantissa make up for a smaller exponent. -/
theorem shiftLeft_value (s : Sign) (m : Nat) (e : Int) (n : Nat) :
    (s.apply (m <<< n : Nat) : ℚ) * 2 ^ (e - n + 149) = s.apply m * 2 ^ (e + 149) := by
  have hsplit : (2 : ℚ) ^ (e + 149) = 2 ^ n * 2 ^ (e - n + 149) := by
    rw [← zpow_natCast, ← zpow_add₀ (by norm_num)]
    congr 1
    ring
  rw [hsplit, Nat.shiftLeft_eq]
  cases s <;> simp only [Sign.apply] <;> push_cast <;> ring

theorem rounds_round (s : Sign) (hm : 0 < m) (e : Int) :
    Rounds (s.apply m * 2 ^ (e + 149)) (grainsOf (round Format.binary32 s m e)) := by
  have ht := totalExponent_shiftLeft hm e (padding m e)
  rw [round_eq_roundWithAccuracy, ← shiftLeft_value s m e (padding m e)]
  refine rounds_roundWithAccuracy s (shiftLeft_pos hm _) ?_
  rw [ht]
  unfold padding
  omega

theorem rounds_normalize (n e : Int) (s : Sign) :
    Rounds (n * 2 ^ (e + 149)) (grainsOf (UnpackedFloat.normalize Format.binary32 n e s)) := by
  unfold UnpackedFloat.normalize
  split
  · rename_i h
    rw [compare_lt_iff_lt] at h
    have hround := rounds_round .negative (m := (-n).toNat) (by omega) e
    rwa [show Sign.apply .negative ((-n).toNat : Int) = n by simp only [Sign.apply]; omega]
      at hround
  · rename_i h
    obtain rfl := compare_eq_iff_eq.mp h
    rw [Int.cast_zero, zero_mul]
    exact_mod_cast Rounds.refl 0
  · rename_i h
    rw [compare_gt_iff_gt] at h
    have hround := rounds_round .positive (m := n.toNat) (by omega) e
    rwa [show Sign.apply .positive (n.toNat : Int) = n by simp only [Sign.apply]; omega] at hround

/-! ## Operations -/

theorem zpow_grains (hge : -149 ≤ e) : (2 : ℚ) ^ (e + 149) = 2 ^ (e + 149).toNat := by
  rw [← zpow_natCast, Int.toNat_of_nonneg (by omega)]

theorem cast_grainsOf (s : Sign) (hm : 0 < m) (hge : -149 ≤ e) :
    (grainsOf (.finite s m e hm) : ℚ) = s.apply m * 2 ^ (e + 149) := by
  rw [zpow_grains hge]
  cases s <;> simp only [grainsOf, Sign.apply] <;> push_cast <;> ring

variable {j k : Int} {u v : UnpackedFloat}

theorem apply_mul (s s' : Sign) (m m' : Nat) :
    (s * s').apply (m * m' : Nat) = s.apply m * s'.apply m' := by
  have hmul : ((m * m' : Nat) : Int) = m * m' := Int.natCast_mul m m'
  cases s with
  | positive =>
    cases s' with
    | positive => exact hmul
    | negative => exact (congrArg Neg.neg hmul).trans (Int.mul_neg ..).symm
  | negative =>
    cases s' with
    | positive => exact (congrArg Neg.neg hmul).trans (Int.neg_mul ..).symm
    | negative => exact hmul.trans (Int.neg_mul_neg ..).symm

theorem rounds_unpacked_mul (hu : Fits j u) (hv : Fits k v) :
    Rounds (grainsOf u * grainsOf v / 2 ^ 149)
      (grainsOf (UnpackedFloat.mul Format.binary32 u v)) := by
  have hzero : Rounds 0 (0 : Int) := by exact_mod_cast Rounds.refl 0
  cases u with
  | infinity s => exact hu.elim
  | notANumber => exact hu.elim
  | zero s =>
    cases v with
    | infinity s' => exact hv.elim
    | notANumber => exact hv.elim
    | _ => simpa [grainsOf, UnpackedFloat.mul] using hzero
  | finite s m e hm =>
    cases v with
    | infinity s' => exact hv.elim
    | notANumber => exact hv.elim
    | zero s' => simpa [grainsOf, UnpackedFloat.mul] using hzero
    | finite s' m' e' hm' =>
      have hround := rounds_roundWithAccuracy (s * s') (Nat.mul_pos hm hm') (mul_exponent_le hu hv)
      have hpow : (2 : ℚ) ^ (e + e' + 149) = 2 ^ (e + 149) * 2 ^ (e' + 149) / 2 ^ 149 := by
        rw [show e + e' + 149 = e + 149 + (e' + 149) - 149 by ring, zpow_sub₀ (by norm_num),
          zpow_add₀ (by norm_num), zpow_ofNat]
      have hvalue : (grainsOf (.finite s m e hm) * grainsOf (.finite s' m' e' hm') / 2 ^ 149 : ℚ) =
          (s * s').apply (m * m' : Nat) * 2 ^ (e + e' + 149) := by
        rw [cast_grainsOf s hm hu.2.1, cast_grainsOf s' hm' hv.2.1, hpow, apply_mul]
        push_cast
        ring
      rw [hvalue]
      exact hround

theorem rounds_unpacked_sub (hu : Fits j u) (hv : Fits k v) :
    Rounds (grainsOf u - grainsOf v) (grainsOf (UnpackedFloat.sub Format.binary32 u v)) := by
  cases u with
  | infinity s => exact hu.elim
  | notANumber => exact hu.elim
  | zero s =>
    cases v with
    | infinity s' => exact hv.elim
    | notANumber => exact hv.elim
    | zero s' =>
      have hzero : grainsOf (UnpackedFloat.sub Format.binary32 (.zero s) (.zero s')) = 0 := by
        cases s <;> cases s' <;> rfl
      rw [hzero]
      simpa [grainsOf] using Rounds.refl 0
    | finite s' m' e' hm' =>
      have hneg := grainsOf_neg (.finite s' m' e' hm')
      change Rounds _ (grainsOf (UnpackedFloat.neg (.finite s' m' e' hm')))
      rw [hneg]
      simpa [grainsOf] using Rounds.refl (-grainsOf (.finite s' m' e' hm'))
  | finite s m e hm =>
    cases v with
    | infinity s' => exact hv.elim
    | notANumber => exact hv.elim
    | zero s' =>
      change Rounds _ (grainsOf (.finite s m e hm))
      simpa [grainsOf] using Rounds.refl (grainsOf (.finite s m e hm))
    | finite s' m' e' hm' =>
      -- both mantissas brought to the smaller exponent
      have hround := rounds_normalize (s.apply (m <<< (e - min e e').toNat : Nat) -
        s'.apply (m' <<< (e' - min e e').toNat : Nat)) (min e e') .positive
      have hl := shiftLeft_value s m e (e - min e e').toNat
      have hr := shiftLeft_value s' m' e' (e' - min e e').toNat
      rw [show e - ((e - min e e').toNat : Int) = min e e' by omega] at hl
      rw [show e' - ((e' - min e e').toNat : Int) = min e e' by omega] at hr
      rw [Int.cast_sub, sub_mul, hl, hr] at hround
      rw [cast_grainsOf s hm hu.2.1, cast_grainsOf s' hm' hv.2.1]
      exact hround

variable {x y : Float32}

theorem rounds_mul (hx : Below j x) (hy : Below k y) (hlo : -149 ≤ j + k) (hhi : j + k < 128) :
    Rounds (grains x * grains y / 2 ^ 149) (grains (x * y)) := by
  rw [grains, grains, grains, parts_mul hx hy hlo hhi]
  exact rounds_unpacked_mul hx hy

theorem rounds_sub (hx : Below k x) (hy : Below k y) (hlo : -149 ≤ k) (hhi : k < 127) :
    Rounds (grains x - grains y) (grains (x - y)) := by
  rw [grains, grains, grains, parts_sub hx hy hlo hhi]
  exact rounds_unpacked_sub hx hy

theorem rounds_add (hx : Below k x) (hy : Below k y) (hlo : -149 ≤ k) (hhi : k < 127) :
    Rounds (grains x + grains y) (grains (x + y)) := by
  have hround := rounds_unpacked_sub hx (fits_neg hy)
  rw [← add_eq_sub_neg, ← parts_add hx hy hlo hhi, grainsOf_neg, Int.cast_neg, sub_neg_eq_add]
    at hround
  exact hround

end TracePlayback.Single
