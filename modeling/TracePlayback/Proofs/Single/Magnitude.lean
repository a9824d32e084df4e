import TracePlayback.Proofs.Binary.Rounding
import TracePlayback.Proofs.Single.Packing

/-!
# How large singles can become

`Below k x` says that a single is finite and less than `2 ^ k` in size. No value is attached to a
single here: the place of its first digit is enough to show that an operation stays finite.

* `isFinite_iff`: the finite singles are those below `2 ^ 128`.
* `fits_roundWithAccuracy`, `fits_round`: rounding moves the first digit by one place at most.
* `below_neg`, `below_abs`, `below_mul`, `below_sub`: so this is how far an operation can move it.
* `below_of_not_lt`, `isFinite_of_between`: what a comparison tells about the size.
-/
namespace TracePlayback.Single

open Float.Model (Format UnpackedFloat totalExponent)
open Float.Model.UnpackedFloat

/-! ## Rounding -/

theorem targetExponent_eq (t : Int) : Format.binary32.targetExponent t = max (t - 24) (-149) := by
  simp only [Format.targetExponent]; rfl

theorem shiftRight_mantissa (em : ExtendedMantissa) (n : Nat) :
    (em >>> n).mantissa = em.mantissa / 2 ^ n := by
  change (n.repeat ExtendedMantissa.shiftRightOne em).mantissa = _
  induction n with
  | zero => simp [Nat.repeat]
  | succ n ih =>
    rw [Nat.repeat, ExtendedMantissa.shiftRightOne, ih, Nat.div_div_eq_div_mul, Nat.pow_succ]

/-- How many digits a mantissa loses when it is brought to the exponent of the format. -/
def surplus (m : Nat) (e : Int) : Nat := (max (totalExponent m e - 24) (-149) - e).toNat

theorem shiftToTargetExponent_eq (m : Nat) (e : Int) :
    (shiftToTargetExponent Format.binary32 m e .exact).1.mantissa = m / 2 ^ surplus m e ∧
      (shiftToTargetExponent Format.binary32 m e .exact).2 = e + surplus m e := by
  unfold shiftToTargetExponent shiftToExponent surplus
  simp only [targetExponent_eq, shiftRight_mantissa]
  exact ⟨rfl, trivial⟩

/-- What is left of a mantissa has 24 bits, all in use unless the exponent is the least one. -/
theorem div_surplus_bounds {m : Nat} (hm : 0 < m) (e : Int) :
    m / 2 ^ surplus m e < 2 ^ 24 ∧
      (e ≤ max (totalExponent m e - 24) (-149) → -149 < e + surplus m e →
        2 ^ 23 ≤ m / 2 ^ surplus m e) := by
  have hlo := Nat.log2_self_le hm.ne'
  have hhi := Nat.lt_log2_self (n := m)
  unfold surplus totalExponent
  generalize hn : (max ((m.log2 : Int) + 1 + e - 24) (-149) - e).toNat = n
  constructor
  · rw [Nat.div_lt_iff_lt_mul (Nat.two_pow_pos n), ← Nat.pow_add]
    exact Nat.lt_of_lt_of_le hhi (Nat.pow_le_pow_right (by decide) (by omega))
  · intro hle hlt
    rw [Nat.le_div_iff_mul_le (Nat.two_pow_pos n), ← Nat.pow_add]
    exact Nat.le_trans (Nat.pow_le_pow_right (by decide) (by omega)) hlo

/-- A mantissa that has no digit to spare keeps its size when its surplus is dropped. -/
theorem fits_shiftToTargetExponent {k : Int} (s : Sign) {m : Nat} {e : Int}
    (he : e ≤ max (totalExponent m e - 24) (-149)) (hge : -149 ≤ e) (hlt : m < 2 ^ (k - e).toNat)
    (hpos : 0 < (shiftToTargetExponent Format.binary32 m e .exact).1.mantissa) :
    Fits k (.finite s _ (shiftToTargetExponent Format.binary32 m e .exact).2 hpos) := by
  obtain ⟨hmant, hexp⟩ := shiftToTargetExponent_eq m e
  have hm : 0 < m := by
    rw [hmant] at hpos
    exact Nat.lt_of_lt_of_le hpos (Nat.div_le_self m _)
  obtain ⟨h24, h23⟩ := div_surplus_bounds hm e
  have hnormal := h23 he
  refine ⟨by rw [hmant]; exact h24, by omega, by rw [hmant, hexp]; omega, ?_⟩
  rw [totalExponent_le_iff hpos, hmant, hexp, Nat.div_lt_iff_lt_mul (Nat.two_pow_pos _),
    ← Nat.pow_add]
  exact Nat.lt_of_lt_of_le hlt (Nat.pow_le_pow_right (by decide) (by omega))

/-- A mantissa is rounded up to the next power of two at most. -/
theorem roundedMantissa_lt {k : Int} {m : Nat} {e : Int} (hm : 0 < m)
    (hsmall : totalExponent m e ≤ k) (hk : -149 ≤ k) :
    (shiftToTargetExponent Format.binary32 m e .exact).1.roundedMantissa <
      2 ^ (k + 1 - (e + surplus m e)).toNat := by
  obtain ⟨-, hhi⟩ := Binary.roundedMantissa_le (shiftToTargetExponent Format.binary32 m e .exact).1
  rw [(shiftToTargetExponent_eq m e).1] at hhi
  have hle : e + surplus m e ≤ k := by
    unfold surplus
    unfold totalExponent at hsmall ⊢
    omega
  have hdiv : m / 2 ^ surplus m e < 2 ^ (k - (e + surplus m e)).toNat := by
    rw [Nat.div_lt_iff_lt_mul (Nat.two_pow_pos _), ← Nat.pow_add]
    rw [totalExponent_le_iff hm] at hsmall
    exact Nat.lt_of_lt_of_le hsmall (Nat.pow_le_pow_right (by decide) (by omega))
  have hpos := Nat.two_pow_pos (k - (e + surplus m e)).toNat
  rw [show (k + 1 - (e + surplus m e)).toNat = (k - (e + surplus m e)).toNat + 1 by omega,
    Nat.pow_succ]
  omega

/-- A mantissa that is rounded up has digits enough for its exponent. -/
theorem le_target_of_le {m r : Nat} {e t : Int} (hm : 0 < m)
    (he : e ≤ max (totalExponent m e - 24) (-149)) (ht : t = e + surplus m e)
    (hr : m / 2 ^ surplus m e ≤ r) (hpos : 0 < r) : t ≤ max (totalExponent r t - 24) (-149) := by
  rcases Int.lt_or_le (-149) t with h | h
  · have hlog : 23 ≤ r.log2 :=
      (Nat.le_log2 hpos.ne').mpr (Nat.le_trans ((div_surplus_bounds hm e).2 he (by omega)) hr)
    unfold totalExponent
    omega
  · omega

/-- Dropping the surplus digits and rounding moves the first digit by one place at most. -/
theorem fits_roundWithAccuracy {k : Int} (s : Sign) {m : Nat} {e : Int} (hm : 0 < m)
    (he : e ≤ max (totalExponent m e - 24) (-149)) (hsmall : totalExponent m e ≤ k)
    (hk : -149 ≤ k) : Fits (k + 1) (roundWithAccuracy Format.binary32 s m e .exact) := by
  obtain ⟨hmant, hexp⟩ := shiftToTargetExponent_eq m e
  obtain ⟨hlo, -⟩ := Binary.roundedMantissa_le (shiftToTargetExponent Format.binary32 m e .exact).1
  have hlt := roundedMantissa_lt hm hsmall hk
  rw [← hexp] at hlt
  rw [hmant] at hlo
  have hge : -149 ≤ (shiftToTargetExponent Format.binary32 m e .exact).2 := by
    rw [hexp]
    unfold surplus
    omega
  unfold roundWithAccuracy
  simp only
  generalize (shiftToTargetExponent Format.binary32 m e .exact).1.roundedMantissa = r at hlo hlt ⊢
  generalize (shiftToTargetExponent Format.binary32 m e .exact).2 = t at hexp hlt hge ⊢
  split
  · trivial
  · rename_i hne
    have hpos : 0 < r := by
      rcases Nat.eq_zero_or_pos r with rfl | h
      · rw [(shiftToTargetExponent_eq 0 t).1, Nat.zero_div] at hne
        exact absurd rfl hne
      · exact h
    exact fits_shiftToTargetExponent s (le_target_of_le hm he hexp hlo hpos) hge hlt _

theorem shiftLeft_pos {m : Nat} (hm : 0 < m) (n : Nat) : 0 < m <<< n := by
  rw [Nat.shiftLeft_eq]
  exact Nat.mul_pos hm (Nat.two_pow_pos n)

/-- Zeros at the end of a mantissa do not move its first digit. -/
theorem totalExponent_shiftLeft {m : Nat} (hm : 0 < m) (e : Int) (n : Nat) :
    totalExponent (m <<< n) (e - n) = totalExponent m e := by
  have hlo : m.log2 + n ≤ (m <<< n).log2 := by
    rw [Nat.le_log2 (shiftLeft_pos hm n).ne', Nat.shiftLeft_eq, Nat.pow_add]
    exact Nat.mul_le_mul_right _ (Nat.log2_self_le hm.ne')
  have hhi : (m <<< n).log2 < m.log2 + n + 1 := by
    rw [Nat.log2_lt (shiftLeft_pos hm n).ne', Nat.shiftLeft_eq, Nat.add_right_comm, Nat.pow_add]
    exact Nat.mul_lt_mul_of_pos_right Nat.lt_log2_self (Nat.two_pow_pos n)
  unfold totalExponent
  omega

/-- A mantissa brought to a smaller exponent. -/
theorem shiftLeft_lt {m : Nat} (hm : 0 < m) {e low k : Int} (hlow : low ≤ e)
    (h : totalExponent m e ≤ k) : m <<< (e - low).toNat < 2 ^ (k - low).toNat := by
  rw [← totalExponent_shiftLeft hm e (e - low).toNat,
    totalExponent_le_iff (shiftLeft_pos hm _)] at h
  rwa [show e - ((e - low).toNat : Int) = low by omega] at h

theorem fits_round {k : Int} (s : Sign) {m : Nat} {e : Int} (hm : 0 < m)
    (hsmall : totalExponent m e ≤ k) (hk : -149 ≤ k) :
    Fits (k + 1) (round Format.binary32 s m e) := by
  unfold UnpackedFloat.round decreaseExponent
  simp only [targetExponent_eq]
  have ht := totalExponent_shiftLeft hm e (e - max (totalExponent m e - 24) (-149)).toNat
  exact fits_roundWithAccuracy s (shiftLeft_pos hm _) (by omega) (by omega) hk

theorem fits_normalize {k : Int} {m : Int} {e : Int} (s : Sign)
    (hsmall : m.natAbs < 2 ^ (k - e).toNat) (hk : -149 ≤ k) :
    Fits (k + 1) (UnpackedFloat.normalize Format.binary32 m e s) := by
  unfold UnpackedFloat.normalize
  split
  · rename_i h
    rw [compare_lt_iff_lt] at h
    refine fits_round _ (by omega) ((totalExponent_le_iff (by omega) e k).mpr ?_) hk
    rwa [show (-m).toNat = m.natAbs by omega]
  · trivial
  · rename_i h
    rw [compare_gt_iff_gt] at h
    refine fits_round _ (by omega) ((totalExponent_le_iff (by omega) e k).mpr ?_) hk
    rwa [show m.toNat = m.natAbs by omega]

/-! ## Operations -/

/-- The sign, mantissa and exponent of a single. -/
def parts (x : Float32) : UnpackedFloat := x.toModel.unpack

/-- Finite, and less than `2 ^ k` in size. -/
def Below (k : Int) (x : Float32) : Prop := Fits k (parts x)

instance (k : Int) : DecidablePred (Below k) := fun x =>
  inferInstanceAs (Decidable (Fits k (parts x)))

variable {x y : Float32} {j k : Int}

theorem isFinite_iff : x.isFinite ↔ Below 128 x := ⟨fits_unpack, Fits.isFinite⟩

theorem Below.mono (h : Below j x) (hjk : j ≤ k) : Below k x := Fits.mono h hjk

theorem Below.isFinite (h : Below k x) : x.isFinite = true := Fits.isFinite h

theorem fits_neg {u : UnpackedFloat} (h : Fits k u) : Fits k u.neg := by
  cases u with
  | zero s => trivial
  | finite s m e hm => exact h
  | infinity s => exact h
  | notANumber => exact h

theorem fits_abs {u : UnpackedFloat} (h : Fits k u) : Fits k u.abs := by
  cases u with
  | zero s => trivial
  | finite s m e hm => exact h
  | infinity s => exact h
  | notANumber => exact h

theorem log2_mul_le {m m' : Nat} (hm : 0 < m) (hm' : 0 < m') :
    m.log2 + m'.log2 ≤ (m * m').log2 := by
  rw [Nat.le_log2 (Nat.mul_pos hm hm').ne', Nat.pow_add]
  exact Nat.mul_le_mul (Nat.log2_self_le hm.ne') (Nat.log2_self_le hm'.ne')

/-- The product of two mantissas has no digits to spare. -/
theorem mul_exponent_le {s s' : Sign} {m m' : Nat} {e e' : Int} {hm : 0 < m} {hm' : 0 < m'}
    (hu : Fits j (.finite s m e hm)) (hv : Fits k (.finite s' m' e' hm')) :
    e + e' ≤ max (totalExponent (m * m') (e + e') - 24) (-149) := by
  obtain ⟨-, hge, hnormal, -⟩ := hu
  obtain ⟨-, hge', hnormal', -⟩ := hv
  have hlo := log2_mul_le hm hm'
  have h23 : ∀ {n : Nat}, 0 < n → 2 ^ 23 ≤ n → 23 ≤ n.log2 := fun hn h =>
    (Nat.le_log2 hn.ne').mpr h
  unfold totalExponent
  -- one of them has all its digits, or both have the least exponent
  rcases hnormal with h | h
  · have := h23 hm h; omega
  · rcases hnormal' with h' | h'
    · have := h23 hm' h'; omega
    · omega

theorem fits_mul {u v : UnpackedFloat} (hu : Fits j u) (hv : Fits k v) (hjk : -149 ≤ j + k) :
    Fits (j + k + 1) (UnpackedFloat.mul Format.binary32 u v) := by
  cases u with
  | zero s => cases v <;> trivial
  | infinity s => exact hu.elim
  | notANumber => exact hu.elim
  | finite s m e hm =>
    cases v with
    | zero s' => trivial
    | infinity s' => exact hv.elim
    | notANumber => exact hv.elim
    | finite s' m' e' hm' =>
      have hpos := Nat.mul_pos hm hm'
      have hhi : (m * m').log2 < m.log2 + 1 + (m'.log2 + 1) := by
        rw [Nat.log2_lt hpos.ne', Nat.pow_add]
        exact Nat.mul_lt_mul'' Nat.lt_log2_self Nat.lt_log2_self
      refine fits_roundWithAccuracy (s * s') hpos (mul_exponent_le hu hv) ?_ hjk
      have hsmall := hu.2.2.2
      have hsmall' := hv.2.2.2
      unfold totalExponent at hsmall hsmall' ⊢
      omega

theorem fits_sub {u v : UnpackedFloat} (hu : Fits k u) (hv : Fits k v) (hk : -149 ≤ k) :
    Fits (k + 2) (UnpackedFloat.sub Format.binary32 u v) := by
  cases u with
  | zero s =>
    cases v with
    | zero s' =>
      change Fits (k + 2) (if s == -s' then .zero s else .zero .positive)
      split <;> trivial
    | finite s' m' e' hm' => exact Fits.mono hv (by omega)
    | infinity s' => exact hv.elim
    | notANumber => exact hv.elim
  | infinity s => exact hu.elim
  | notANumber => exact hu.elim
  | finite s m e hm =>
    cases v with
    | zero s' => exact Fits.mono hu (by omega)
    | infinity s' => exact hv.elim
    | notANumber => exact hv.elim
    | finite s' m' e' hm' =>
      -- both mantissas brought to the smaller exponent
      have hsmall := shiftLeft_lt hm (Int.min_le_left e e') hu.2.2.2
      have hsmall' := shiftLeft_lt hm' (Int.min_le_right e e') hv.2.2.2
      have hpos := shiftLeft_pos hm (e - min e e').toNat
      have hpos' := shiftLeft_pos hm' (e' - min e e').toNat
      have hlt : min e e' < k := by
        by_contra hge
        rw [show (k - min e e').toNat = 0 by omega] at hsmall
        omega
      rw [show k + 2 = k + 1 + 1 by omega]
      refine fits_normalize _ ?_ (by omega)
      rw [show (k + 1 - min e e').toNat = (k - min e e').toNat + 1 by omega, Nat.pow_succ]
      cases s <;> cases s' <;> simp only [Sign.apply] <;> omega

/-! What fits can be read off the packed result. -/

theorem parts_neg (h : x.isFinite) : parts (-x) = (parts x).neg :=
  unpack_pack (fits_neg (isFinite_iff.mp h))

theorem parts_abs (h : x.isFinite) : parts x.abs = (parts x).abs :=
  unpack_pack (fits_abs (isFinite_iff.mp h))

theorem below_neg (h : Below k x) : Below k (-x) := by
  rw [Below, parts_neg h.isFinite]
  exact fits_neg h

theorem below_abs (h : Below k x) : Below k x.abs := by
  rw [Below, parts_abs h.isFinite]
  exact fits_abs h

theorem parts_mul (hx : Below j x) (hy : Below k y) (hlo : -149 ≤ j + k) (hhi : j + k < 128) :
    parts (x * y) = UnpackedFloat.mul Format.binary32 (parts x) (parts y) :=
  unpack_pack ((fits_mul hx hy hlo).mono (by omega))

theorem below_mul (hx : Below j x) (hy : Below k y) (hlo : -149 ≤ j + k) (hhi : j + k < 128) :
    Below (j + k + 1) (x * y) := by
  rw [Below, parts_mul hx hy hlo hhi]
  exact fits_mul hx hy hlo

theorem parts_sub (hx : Below k x) (hy : Below k y) (hlo : -149 ≤ k) (hhi : k < 127) :
    parts (x - y) = UnpackedFloat.sub Format.binary32 (parts x) (parts y) :=
  unpack_pack ((fits_sub hx hy hlo).mono (by omega))

theorem below_sub (hx : Below k x) (hy : Below k y) (hlo : -149 ≤ k) (hhi : k < 127) :
    Below (k + 2) (x - y) := by
  rw [Below, parts_sub hx hy hlo hhi]
  exact fits_sub hx hy hlo

/-! ## Comparisons -/

theorem lt_iff : x < y ↔ (parts x).compare (parts y) = some .lt := by
  change decide (((parts x).compare (parts y) == some .lt) = true) = true ↔ _
  rw [decide_eq_true_iff, beq_iff_eq]

theorem le_iff : x ≤ y ↔ ((parts x).compare (parts y)).any (·.isLE) = true := decide_eq_true_iff

theorem isFinite_of_between {low high : Float32} (hlow : low.isFinite) (hhigh : high.isFinite)
    (h : low ≤ x ∧ x < high) : x.isFinite = true := by
  obtain ⟨hle, hlt⟩ := h
  rw [le_iff] at hle
  rw [lt_iff] at hlt
  change (parts low).isFinite = true at hlow
  change (parts high).isFinite = true at hhigh
  change (parts x).isFinite = true
  generalize parts low = a at hle hlow
  generalize parts high = b at hlt hhigh
  cases hx : parts x with
  | zero s => rfl
  | finite s m e hm => rfl
  | notANumber => rw [hx] at hlt; cases b <;> cases hlt
  | infinity s =>
    rw [hx] at hle hlt
    cases s with
    | negative => cases a <;> first | cases hle | cases hlow
    | positive => cases b <;> first | cases hlt | cases hhigh

theorem parts_zero : parts 0 = .zero .positive := by rfl

theorem parts_of_isFinite (hx : x.isFinite) :
    (∃ s, parts x = .zero s) ∨ ∃ s m e hm, parts x = .finite s m e hm := by
  change (parts x).isFinite = true at hx
  cases hparts : parts x with
  | zero s => exact Or.inl ⟨s, rfl⟩
  | finite s m e hm => exact Or.inr ⟨s, m, e, hm, rfl⟩
  | infinity s => rw [hparts] at hx; cases hx
  | notANumber => rw [hparts] at hx; cases hx

theorem isNaN_of_isFinite (h : x.isFinite) : x.isNaN = false := by
  change (parts x).isNaN = false
  rcases parts_of_isFinite h with ⟨s, hx⟩ | ⟨s, m, e, hm, hx⟩
  · rw [hx]; rfl
  · rw [hx]; rfl

theorem parts_of_nonneg (hx : x.isFinite) (h : 0 ≤ x) :
    (∃ s, parts x = .zero s) ∨ ∃ m e hm, parts x = .finite .positive m e hm := by
  rcases parts_of_isFinite hx with hzero | ⟨s, m, e, hm, hparts⟩
  · exact Or.inl hzero
  · rw [le_iff, parts_zero, hparts] at h
    cases s with
    | negative => cases h
    | positive => exact Or.inr ⟨m, e, hm, hparts⟩

theorem pos_iff (hx : x.isFinite) : 0 < x ↔ ∃ m e hm, parts x = .finite .positive m e hm := by
  rw [lt_iff, parts_zero]
  rcases parts_of_isFinite hx with ⟨s, hparts⟩ | ⟨s, m, e, hm, hparts⟩
  · simp [hparts, UnpackedFloat.compare]
  · cases s <;> simp [hparts, UnpackedFloat.compare, hm]

theorem pos_of_not_lt (hx : x.isFinite) (hy : y.isFinite) (h0 : 0 < y) (h : ¬ x < y) : 0 < x := by
  obtain ⟨m, e, hm, hparts⟩ := (pos_iff hy).mp h0
  rw [lt_iff, hparts] at h
  rw [pos_iff hx]
  rcases parts_of_isFinite hx with ⟨s, hpartsx⟩ | ⟨s, m', e', hm', hpartsx⟩
  · rw [hpartsx] at h
    exact absurd rfl h
  · rw [hpartsx] at h
    cases s with
    | negative => exact absurd rfl h
    | positive => exact ⟨m', e', hm', hpartsx⟩

theorem neg_lt_self (hx : x.isFinite) (h : 0 < x) : -x < x := by
  obtain ⟨m, e, hm, hparts⟩ := (pos_iff hx).mp h
  rw [lt_iff, parts_neg hx, hparts]
  rfl

theorem abs_nonneg (hx : x.isFinite) : 0 ≤ x.abs := by
  rw [le_iff, parts_zero, parts_abs hx]
  rcases parts_of_isFinite hx with ⟨s, hparts⟩ | ⟨s, m, e, hm, hparts⟩
  · rw [hparts]; rfl
  · rw [hparts]; rfl

/-- What is not greater than a small single is small itself. Numbers as the format writes them are
compared by their exponents first. -/
theorem below_of_not_lt (hy : Below k y) (hx : x.isFinite) (h0 : 0 ≤ x) (h : ¬ y < x) :
    Below k x := by
  rcases parts_of_nonneg hx h0 with ⟨s, hparts⟩ | ⟨m, e, hm, hparts⟩
  · rw [Below, hparts]; trivial
  rw [isFinite_iff, Below, hparts] at hx
  rw [lt_iff, hparts] at h
  rw [Below, hparts]
  obtain ⟨hlt, hge, hnormal, -⟩ := hx
  refine ⟨hlt, hge, hnormal, ?_⟩
  rw [Below] at hy
  cases hpartsy : parts y with
  | zero s => rw [hpartsy] at h; exact absurd rfl h
  | infinity s => rw [hpartsy] at hy; exact hy.elim
  | notANumber => rw [hpartsy] at hy; exact hy.elim
  | finite s m' e' hm' =>
    rw [hpartsy] at h hy
    obtain ⟨hlt', -, hnormal', hsmall'⟩ := hy
    cases s with
    | negative => exact absurd rfl h
    | positive =>
      simp only [UnpackedFloat.compare, Option.some.injEq, Ordering.then_eq_lt, compare_lt_iff_lt,
        compare_eq_iff_eq, not_or, not_and] at h
      obtain ⟨hexp, hmant⟩ := h
      rcases Int.lt_or_eq_of_le (Int.not_lt.mp hexp) with hlt_exp | rfl
      · -- the larger one has all its digits
        have hlog : m'.log2 = 23 := log2_eq (by omega) hlt'
        have hlog' : m.log2 < 24 := (Nat.log2_lt hm.ne').mpr hlt
        unfold totalExponent at hsmall' ⊢
        omega
      · rw [totalExponent_le_iff hm]
        rw [totalExponent_le_iff hm'] at hsmall'
        have := hmant rfl
        omega

end TracePlayback.Single
