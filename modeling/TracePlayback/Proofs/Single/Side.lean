import TracePlayback.Proofs.Single.Magnitude

/-!
# On which side of zero singles are

`Sided s u` says that an unpacked number does not lie beyond zero, as seen from the side `s`: it is a
zero of either sign, lies on that side, or is no number. Rounding and packing keep the side, whatever
they do to the size: an overflow is an infinity on the same side, an underflow a zero.

* `sided_roundWithAccuracy`, `sided_normalize`, `sided_unpack_pack`: that is so.
* `side_mul`, `side_div`: products and quotients are on the side that the signs tell.
* `side_ofNat`: what is made of a natural number is not negative.
* `not_pos_iff`, `not_neg_iff`: the side of a single, as comparisons with zero tell it.
-/
namespace TracePlayback.Single

open Float.Model (Format UnpackedFloat totalExponent)
open Float.Model.UnpackedFloat

/-- Not on the other side of zero than `s`. -/
def Sided (s : Sign) : UnpackedFloat → Prop
  | .notANumber => True
  | .zero _ => True
  | .infinity s' => s' = s
  | .finite s' _ _ _ => s' = s

/-! ## Rounding and packing -/

theorem sided_roundWithAccuracy (s : Sign) (m : Nat) (e : Int) (acc : Accuracy) :
    Sided s (roundWithAccuracy Format.binary32 s m e acc) := by
  unfold roundWithAccuracy
  simp only
  split
  · trivial
  · rfl

theorem sided_round (s : Sign) (m : Nat) (e : Int) :
    Sided s (UnpackedFloat.round Format.binary32 s m e) :=
  sided_roundWithAccuracy s _ _ _

/-- A natural number that is rounded. -/
theorem sided_normalize (n : Nat) (e : Int) :
    Sided .positive (UnpackedFloat.normalize Format.binary32 n e .positive) := by
  unfold UnpackedFloat.normalize
  split
  · rename_i h
    rw [compare_lt_iff_lt] at h
    omega
  · trivial
  · exact sided_round .positive _ _

/-- What has a sign written has that sign, or is no number. -/
theorem sided_packComponents (s : Sign) (e : BitVec 8) (m : BitVec 23) :
    Sided s (unpack Format.binary32 (packComponents Format.binary32 s e m)) := by
  unfold unpack
  simp only [unpackMantissa_packComponents, unpackExponent_packComponents,
    unpackSign_packComponents, Sign.ofBitVec_toBitVec]
  split
  · split
    · rfl
    · trivial
  · split
    · split
      · trivial
      · rfl
    · rfl

/-- Packing keeps the side, also of what it has to round to an infinity. -/
theorem sided_unpack_pack {s : Sign} {u : UnpackedFloat} (h : Sided s u) :
    Sided s (Float32.Model.pack u).unpack := by
  cases u with
  | notANumber => trivial
  | zero s' => cases s' <;> trivial
  | infinity s' =>
    obtain rfl : s' = s := h
    exact sided_packComponents s' _ _
  | finite s' m e hm =>
    obtain rfl : s' = s := h
    change Sided s' (unpack Format.binary32 (UnpackedFloat.pack Format.binary32 _))
    unfold UnpackedFloat.pack
    simp only
    split
    · exact sided_packComponents s' _ _
    · split
      · exact sided_packComponents s' _ _
      · exact sided_packComponents s' _ _

/-! ## Products and quotients -/

variable {s s' : Sign} {x y : Float32}

theorem sided_mul {u v : UnpackedFloat} (hu : Sided s u) (hv : Sided s' v) :
    Sided (s * s') (UnpackedFloat.mul Format.binary32 u v) := by
  cases u with
  | notANumber => trivial
  | zero _ => cases v <;> trivial
  | infinity t =>
    obtain rfl : t = s := hu
    cases v with
    | notANumber => trivial
    | zero _ => trivial
    | infinity t' => obtain rfl : t' = s' := hv; rfl
    | finite t' m e hm => obtain rfl : t' = s' := hv; rfl
  | finite t m e hm =>
    obtain rfl : t = s := hu
    cases v with
    | notANumber => trivial
    | zero _ => trivial
    | infinity t' => obtain rfl : t' = s' := hv; rfl
    | finite t' m' e' hm' =>
      obtain rfl : t' = s' := hv
      exact sided_roundWithAccuracy (t * t') _ _ _

/-- A zero divides to an infinity on the side of its own sign, so the divisor must not be one. -/
theorem sided_div {u v : UnpackedFloat} (hu : Sided s u) (hv : Sided s' v) (hzero : ∀ t, v ≠ .zero t) :
    Sided (s / s') (UnpackedFloat.div Format.binary32 u v) := by
  cases v with
  | notANumber => cases u <;> trivial
  | zero t => exact absurd rfl (hzero t)
  | infinity t' => cases u <;> trivial
  | finite t' m' e' hm' =>
    obtain rfl : t' = s' := hv
    cases u with
    | notANumber => trivial
    | zero _ => trivial
    | infinity t => obtain rfl : t = s := hu; rfl
    | finite t m e hm =>
      obtain rfl : t = s := hu
      exact sided_roundWithAccuracy (t / t') _ _ _

/-- The side of a single. -/
def Side (s : Sign) (x : Float32) : Prop := Sided s (parts x)

theorem side_mul (hx : Side s x) (hy : Side s' y) : Side (s * s') (x * y) :=
  sided_unpack_pack (sided_mul hx hy)

theorem side_div (hx : Side s x) (hy : Side s' y) (hzero : ∀ t, parts y ≠ .zero t) :
    Side (s / s') (x / y) :=
  sided_unpack_pack (sided_div hx hy hzero)

/-! ## Natural numbers -/

theorem sided_ofScientific (n : Nat) (e : Int) :
    Sided .positive (UnpackedFloat.ofScientific Format.binary32 n e) := by
  unfold UnpackedFloat.ofScientific
  split
  · trivial
  split
  · rfl
  split
  · trivial
  split
  · exact sided_roundWithAccuracy .positive _ _ _
  · exact sided_roundWithAccuracy .positive _ _ _

theorem side_ofUInt64 (n : UInt64) : Side .positive n.toFloat32 :=
  sided_unpack_pack (sided_normalize n.toNat 0)

theorem side_ofNat (n : Nat) : Side .positive (Float32.ofNat n) := by
  change Side .positive (Float32.ofScientific n false 0)
  unfold Float32.ofScientific
  split
  · -- a small number is converted, and multiplied by one
    have hone : Side .positive (Float32.exactlyRepresentablePowersOfTen[0]) := rfl
    exact side_mul (side_ofUInt64 _) hone
  · -- a large one is rounded from all its digits
    exact sided_unpack_pack (sided_ofScientific n _)

/-! ## Comparisons with zero -/

theorem not_pos_iff : ¬ 0 < x ↔ Side .negative x := by
  rw [lt_iff, parts_zero, Side]
  cases parts x with
  | notANumber => simp [UnpackedFloat.compare, Sided]
  | zero t => simp [UnpackedFloat.compare, Sided]
  | infinity t => cases t <;> simp [UnpackedFloat.compare, Sided]
  | finite t m e hm => cases t <;> simp [UnpackedFloat.compare, Sided]

theorem not_neg_iff : ¬ x < 0 ↔ Side .positive x := by
  rw [lt_iff, parts_zero, Side]
  cases parts x with
  | notANumber => simp [UnpackedFloat.compare, Sided]
  | zero t => simp [UnpackedFloat.compare, Sided]
  | infinity t => cases t <;> simp [UnpackedFloat.compare, Sided]
  | finite t m e hm => cases t <;> simp [UnpackedFloat.compare, Sided]

theorem nonpos_iff_not_pos : x ≤ 0 ↔ x.isNaN = false ∧ ¬ 0 < x := by
  change _ ↔ (parts x).isNaN = false ∧ _
  rw [le_iff, lt_iff, parts_zero]
  cases parts x with
  | notANumber => simp [UnpackedFloat.compare, UnpackedFloat.isNaN]
  | zero t => simp [UnpackedFloat.compare, UnpackedFloat.isNaN]
  | infinity t => cases t <;> simp [UnpackedFloat.compare, UnpackedFloat.isNaN]
  | finite t m e hm => cases t <;> simp [UnpackedFloat.compare, UnpackedFloat.isNaN]

theorem side_or (x : Float32) : Side .negative x ∨ Side .positive x := by
  unfold Side
  cases parts x with
  | notANumber => exact Or.inl trivial
  | zero t => exact Or.inl trivial
  | infinity t => cases t <;> simp [Sided]
  | finite t m e hm => cases t <;> simp [Sided]

/-- The product of what is not positive with what is not negative, or of a zero with anything. -/
theorem not_pos_mul (hx : ¬ 0 < x) (h : ¬ x < 0 ∨ ¬ y < 0) : ¬ 0 < x * y := by
  rw [not_pos_iff] at hx ⊢
  rw [not_neg_iff, not_neg_iff] at h
  rcases h with hx' | hy
  · -- a zero lies on both sides
    rcases side_or y with hy | hy
    · exact side_mul hx' hy
    · exact side_mul hx hy
  · exact side_mul hx hy

theorem compare_ne_lt {u v : UnpackedFloat} (hu : Sided .positive u) (hv : Sided .negative v) :
    u.compare v ≠ some .lt := by
  cases u with
  | notANumber => cases v <;> exact nofun
  | zero t =>
    cases v with
    | notANumber => exact nofun
    | zero t' => exact nofun
    | infinity t' => obtain rfl : t' = .negative := hv; exact nofun
    | finite t' m e hm => obtain rfl : t' = .negative := hv; exact nofun
  | infinity t =>
    obtain rfl : t = .positive := hu
    cases v with
    | infinity t' => obtain rfl : t' = .negative := hv; exact nofun
    | _ => exact nofun
  | finite t m e hm =>
    obtain rfl : t = .positive := hu
    cases v with
    | notANumber => exact nofun
    | zero t' => exact nofun
    | infinity t' => obtain rfl : t' = .negative := hv; exact nofun
    | finite t' m' e' hm' => obtain rfl : t' = .negative := hv; exact nofun

theorem not_lt_of_nonpos (hx : ¬ 0 < x) (hy : ¬ y < 0) : ¬ y < x := by
  rw [lt_iff]
  exact compare_ne_lt (not_neg_iff.mp hy) (not_pos_iff.mp hx)

theorem lt_of_not_finite (hx : x.isFinite = false) (hpos : 0 < x) (hy : y.isFinite) : y < x := by
  rw [lt_iff, parts_zero] at hpos
  change (parts x).isFinite = false at hx
  rw [lt_iff]
  cases hpx : parts x with
  | zero t => rw [hpx] at hx; cases hx
  | finite t m e hm => rw [hpx] at hx; cases hx
  | notANumber => rw [hpx] at hpos; cases hpos
  | infinity t =>
    rw [hpx] at hpos
    cases t with
    | negative => cases hpos
    | positive =>
      rcases parts_of_isFinite hy with ⟨t, hpy⟩ | ⟨t, m, e, hm, hpy⟩
      · rw [hpy]; rfl
      · rw [hpy]; rfl

theorem mul_of_not_finite {u : UnpackedFloat} (v : UnpackedFloat) (h : u.isFinite = false) :
    UnpackedFloat.mul Format.binary32 u v = .notANumber ∨
      ∃ t, UnpackedFloat.mul Format.binary32 u v = .infinity t := by
  cases u with
  | zero t => cases h
  | finite t m e hm => cases h
  | notANumber => exact Or.inl rfl
  | infinity t =>
    cases v with
    | zero t' => exact Or.inl rfl
    | notANumber => exact Or.inl rfl
    | infinity t' => exact Or.inr ⟨t * t', rfl⟩
    | finite t' m e hm => exact Or.inr ⟨t * t', rfl⟩

theorem isFinite_mul_eq_false (y : Float32) (h : x.isFinite = false) :
    (x * y).isFinite = false := by
  change (Float32.Model.pack (UnpackedFloat.mul Format.binary32 (parts x) (parts y))).unpack.isFinite
    = false
  rcases mul_of_not_finite (u := parts x) (parts y) h with hnan | ⟨t, hinf⟩
  · rw [hnan]; rfl
  · rw [hinf]; cases t <;> rfl

end TracePlayback.Single
