import TracePlayback.Proofs.Layout.Survivors

/-!
# The first draw is taken

A draw is repeated if rounding has carried it out of the range. Over the two ranges from which
numbers are drawn it never does, so each draw takes one word, and the end of the tries is not
reached.

* `grains_fraction`: the fraction that a word stands for needs no rounding.
* `stretch_unit`: neither does its way over `[0, 1)`.
* `stretch_symmetric`: over `[-h, h)` the product and the sum are rounded, but not past the numbers
  beside the bounds.
* `uniform_unit`, `uniform_halfSpread`: so the first draw is taken.
* `draws_unit`, `draws_halfSpread`: and so many draws take so many words.
-/
namespace TracePlayback

open Single
open Layout (halfSpread halfSpread_below halfSpread_bounds)
open Float.Model (Format UnpackedFloat totalExponent)
open Float.Model.UnpackedFloat

namespace Random

/-! ## Fractions -/

theorem toNat_shiftRight_lt (w : UInt32) : (w >>> 9).toNat < 2 ^ 23 := by
  have := w.toNat_lt
  rw [UInt32.toNat_shiftRight, Nat.shiftRight_eq_div_pow]
  exact Nat.div_lt_of_lt_mul (by simpa using this)

/-- The sign, the exponent and the mantissa that the bits of a word are put beside. -/
theorem toBitVec_eq (w : UInt32) :
    (w >>> 9 ||| 0x3F800000).toBitVec =
      packComponents Format.binary32 .positive 127#8 (BitVec.ofNat 23 (w >>> 9).toNat) := by
  have hfield : (Sign.positive.toBitVec ++ 127#8).toNat <<< 23 = 0x3F800000 := rfl
  apply BitVec.eq_of_toNat_eq
  rw [packComponents, BitVec.toNat_append, hfield, BitVec.toNat_ofNat,
    Nat.mod_eq_of_lt (toNat_shiftRight_lt w), Nat.or_comm]
  rfl

/-- They make a number of `[1, 2)`. -/
theorem parts_ofBits (w : UInt32) :
    parts (Float32.ofBits (w >>> 9 ||| 0x3F800000)) =
      .finite .positive (2 ^ 23 + (w >>> 9).toNat) (-23) (Nat.add_pos_left (by decide) _) := by
  have hfields : unpack Format.binary32 (w >>> 9 ||| 0x3F800000).toBitVec =
      .finite .positive (2 ^ 23 + (w >>> 9).toNat) (-23) (Nat.add_pos_left (by decide) _) := by
    rw [toBitVec_eq]
    unfold unpack
    simp only [unpackMantissa_packComponents, unpackExponent_packComponents,
      unpackSign_packComponents, Sign.ofBitVec_toBitVec]
    rw [if_neg (by decide), if_neg (by decide)]
    refine Binary.finite_congr ?_ (by decide)
    rw [Binary.toNat_append_one, Binary.toNat_ofNat_of_lt (toNat_shiftRight_lt w)]
  have hfits : Fits 128 (unpack Format.binary32 (w >>> 9 ||| 0x3F800000).toBitVec) :=
    fits_unpack (by rw [hfields]; rfl)
  exact (unpack_pack hfits).trans hfields

/-- One is taken from it without rounding. -/
theorem grains_fraction (w : UInt32) :
    Below 0 (fraction w) ∧ grains (fraction w) = ((w >>> 9).toNat * 2 ^ 126 : Nat) := by
  have hlt := toNat_shiftRight_lt w
  have hnumber : Below 1 (Float32.ofBits (w >>> 9 ||| 0x3F800000)) := by
    rw [Below, parts_ofBits]
    refine ⟨by omega, by decide, Or.inl (by omega), (totalExponent_le_iff (by omega) _ _).mpr ?_⟩
    rw [show (1 - -23 : Int).toNat = 24 by decide]
    omega
  have hone : Below 1 1 := by decide
  have hvalue : grains (Float32.ofBits (w >>> 9 ||| 0x3F800000)) =
      ((2 ^ 23 + (w >>> 9).toNat) * 2 ^ 126 : Nat) := by
    rw [grains, parts_ofBits]
    rfl
  have hgrains : grains (fraction w) = ((w >>> 9).toNat * 2 ^ 126 : Nat) := by
    refine (rounds_sub hnumber hone (by decide) (by decide)).eq
      (writable_mul_pow (by omega) 126) ?_
    rw [hvalue, grains_one]
    push_cast
    ring
  have hfin : (fraction w).isFinite := (below_sub hnumber hone (by decide) (by decide)).isFinite
  refine ⟨(below_iff_grains hfin (by decide)).mpr ?_, hgrains⟩
  rw [hgrains, Int.natAbs_natCast, show (0 + 149 : Int).toNat = 23 + 126 by decide, Nat.pow_add]
  exact Nat.mul_lt_mul_of_pos_right hlt (Nat.two_pow_pos 126)

/-! ## From zero to one -/

/-- A fraction is stretched to itself. -/
theorem stretch_unit (w : UInt32) : 0 ≤ stretch 0 1 w ∧ stretch 0 1 w < 1 := by
  obtain ⟨hfraction, hgrains⟩ := grains_fraction w
  have hlt := toNat_shiftRight_lt w
  have hwritable := writable_mul_pow (by omega : (w >>> 9).toNat ≤ 2 ^ 24) 126
  have hwidth : Below 1 (1 - 0) := by decide
  have hone : grains (1 - 0) = 2 ^ 149 := by decide +kernel
  have hproduct : Below 2 (fraction w * (1 - 0)) :=
    below_mul hfraction hwidth (by decide) (by decide)
  have hsame : grains (fraction w * (1 - 0)) = ((w >>> 9).toNat * 2 ^ 126 : Nat) := by
    refine (rounds_mul hfraction hwidth (by decide) (by decide)).eq hwritable ?_
    rw [hgrains, hone]
    push_cast
    ring
  have hzero : Below 2 0 := by decide
  have hsum : grains (stretch 0 1 w) = ((w >>> 9).toNat * 2 ^ 126 : Nat) := by
    refine (rounds_add hproduct hzero (by decide) (by decide)).eq hwritable ?_
    rw [hsame, grains_zero]
    push_cast
    ring
  have hfin : (stretch 0 1 w).isFinite :=
    (below_add hproduct hzero (by decide) (by decide)).isFinite
  rw [nonneg_iff_grains hfin, lt_iff_grains hfin (by decide), grains_one, hsum]
  omega

/-! ## From the negative of a number to the number -/

variable {h : Float32} {m n : Nat}

theorem grains_of_normal (hb : Below 120 h) (hn : Scalar.leastNormal ≤ h) :
    ∃ m n : Nat, 2 ^ 23 ≤ m ∧ m < 2 ^ 24 ∧ grains h = (m * 2 ^ n : Nat) := by
  have hleast : grains Scalar.leastNormal = 2 ^ 23 := by decide +kernel
  rw [le_iff_grains (by decide) hb.isFinite, hleast] at hn
  have hnonneg : 0 ≤ h := by
    rw [nonneg_iff_grains hb.isFinite]
    omega
  rcases parts_of_nonneg hb.isFinite hnonneg with ⟨s, hparts⟩ | ⟨m, e, hm, hparts⟩
  · have hzero : grains h = 0 := by rw [grains, hparts]; rfl
    omega
  · have hgrains : grains h = (m * 2 ^ (e + 149).toNat : Nat) := by rw [grains, hparts]; rfl
    rw [Below, hparts] at hb
    obtain ⟨hlt, -, hnormal, -⟩ := hb
    refine ⟨m, (e + 149).toNat, ?_, hlt, hgrains⟩
    rcases hnormal with hfull | rfl
    · exact hfull
    · rw [hgrains, show (-149 + 149 : Int).toNat = 0 by decide] at hn
      omega

theorem grains_width (hb : Below 120 h) (hlt : m < 2 ^ 24) (hh : grains h = (m * 2 ^ n : Nat)) :
    grains (h - -h) = (m * 2 ^ (n + 1) : Nat) := by
  refine (rounds_sub hb (below_neg hb) (by decide) (by decide)).eq
    (writable_mul_pow hlt.le (n + 1)) ?_
  rw [grains_neg hb.isFinite, hh, Nat.pow_succ]
  push_cast
  ring

/-- The largest fraction of a number leaves at least its last digit. -/
theorem fraction_mul_le {k : Nat} (hk : k < 2 ^ 23) (hm : 2 ^ 23 ≤ m) (n : Nat) :
    k * 2 ^ 126 * (m * 2 ^ n) ≤ (m - 1) * 2 ^ n * 2 ^ 149 := by
  have hless : k * m ≤ (m - 1) * 2 ^ 23 :=
    calc k * m ≤ (2 ^ 23 - 1) * m := Nat.mul_le_mul_right m (by omega)
      _ ≤ (m - 1) * 2 ^ 23 := by omega
  calc k * 2 ^ 126 * (m * 2 ^ n) = k * m * (2 ^ 126 * 2 ^ n) := by ring
    _ ≤ (m - 1) * 2 ^ 23 * (2 ^ 126 * 2 ^ n) := Nat.mul_le_mul_right _ hless
    _ = (m - 1) * 2 ^ n * 2 ^ 149 := by ring

/-- A fraction of the width is at least one digit less than the width. -/
theorem product_range (hb : Below 120 h) (hlo : 2 ^ 23 ≤ m) (hlt : m < 2 ^ 24)
    (hh : grains h = (m * 2 ^ n : Nat)) (w : UInt32) :
    0 ≤ grains (fraction w * (h - -h)) ∧
      grains (fraction w * (h - -h)) ≤ ((m - 1) * 2 ^ (n + 1) : Nat) := by
  obtain ⟨hfraction, hgrains⟩ := grains_fraction w
  have hwidth := below_sub hb (below_neg hb) (by decide) (by decide)
  have hround := rounds_mul hfraction hwidth (by decide) (by decide)
  rw [hgrains, grains_width hb hlt hh] at hround
  constructor
  · exact hround.ge writable_zero (by positivity)
  · refine hround.le (writable_mul_pow (by omega) (n + 1)) ?_
    rw [div_le_iff₀ (by positivity)]
    exact_mod_cast fraction_mul_le (toNat_shiftRight_lt w) hlo (n + 1)

/-- So what is left of the width after the way to the negative is less than the number. -/
theorem stretch_symmetric (hb : Below 120 h) (hn : Scalar.leastNormal ≤ h) (w : UInt32) :
    -h ≤ stretch (-h) h w ∧ stretch (-h) h w < h := by
  obtain ⟨m, n, hlo, hlt, hh⟩ := grains_of_normal hb hn
  obtain ⟨hnonneg, hle⟩ := product_range hb hlo hlt hh w
  have hproduct : Below 123 (fraction w * (h - -h)) :=
    below_mul (grains_fraction w).1 (below_sub hb (below_neg hb) (by decide) (by decide))
      (by decide) (by decide)
  have hneg : Below 123 (-h) := (below_neg hb).mono (by decide)
  have hround := rounds_add hproduct hneg (by decide) (by decide)
  have hfin : (stretch (-h) h w).isFinite :=
    (below_add hproduct hneg (by decide) (by decide)).isFinite
  rw [le_iff_grains (below_neg hb).isFinite hfin, lt_iff_grains hfin hb.isFinite]
  rw [grains_neg hb.isFinite, hh] at hround ⊢
  generalize grains (fraction w * (h - -h)) = product at hnonneg hle hround
  constructor
  · refine hround.ge (writable_mul_pow hlt.le n).neg ?_
    exact_mod_cast (by omega : -((m * 2 ^ n : Nat) : Int) ≤ product + -((m * 2 ^ n : Nat) : Int))
  · have hlast : (m - 1) * 2 ^ (n + 1) = (m - 2) * 2 ^ n + m * 2 ^ n := by
      rw [← Nat.add_mul, Nat.pow_succ, Nat.mul_comm _ 2, ← Nat.mul_assoc]
      congr 1
      omega
    have hless : (m - 2) * 2 ^ n < m * 2 ^ n :=
      Nat.mul_lt_mul_of_pos_right (by omega) (Nat.two_pow_pos n)
    refine lt_of_le_of_lt (hround.le (writable_mul_pow (by omega) n) ?_) (Int.ofNat_lt.mpr hless)
    exact_mod_cast
      (by omega : product + -((m * 2 ^ n : Nat) : Int) ≤ (((m - 2) * 2 ^ n : Nat) : Int))

/-! ## Draws -/

theorem stretch_halfSpread (spread : Float32) (w : UInt32) :
    -halfSpread spread ≤ stretch (-halfSpread spread) (halfSpread spread) w ∧
      stretch (-halfSpread spread) (halfSpread spread) w < halfSpread spread := by
  have hfin := (halfSpread_below spread).isFinite
  have hepsilon := (halfSpread_bounds spread).1
  have hleast : grains Scalar.leastNormal ≤ grains Scalar.epsilon := by decide +kernel
  refine stretch_symmetric ((halfSpread_below spread).mono (by decide)) ?_ w
  rw [le_iff_grains (by decide) hfin] at hepsilon ⊢
  exact hleast.trans hepsilon

variable {γ : Type} [Generator γ]

theorem uniform_of_stretch {low high : Float32}
    (h : ∀ w, low ≤ stretch low high w ∧ stretch low high w < high) (g : γ) :
    uniform low high g = (stretch low high (Generator.next g).1, (Generator.next g).2) := by
  rw [uniform, uniformWithin]
  exact if_pos (h _)

theorem uniform_unit (g : γ) :
    uniform 0 1 g = (stretch 0 1 (Generator.next g).1, (Generator.next g).2) :=
  uniform_of_stretch stretch_unit g

theorem uniform_halfSpread (spread : Float32) (g : γ) :
    uniform (-halfSpread spread) (halfSpread spread) g =
      (stretch (-halfSpread spread) (halfSpread spread) (Generator.next g).1,
        (Generator.next g).2) :=
  uniform_of_stretch (stretch_halfSpread spread) g

/-- So many words of a generator. -/
def words : Nat → γ → List UInt32 × γ
  | 0, g => ([], g)
  | n + 1, g =>
    let (w, g) := Generator.next g
    let (ws, g) := words n g
    (w :: ws, g)

/-- If the first draw is taken, so many draws take so many words. -/
theorem draws_eq_words {low high : Float32}
    (h : ∀ g : γ, uniform low high g =
      (stretch low high (Generator.next g).1, (Generator.next g).2)) (n : Nat) (g : γ) :
    draws low high n g = ((words n g).1.map (stretch low high), (words n g).2) := by
  induction n generalizing g with
  | zero => rfl
  | succ n ih => simp only [draws, words, h, ih, List.map_cons]

theorem draws_unit (n : Nat) (g : γ) :
    draws 0 1 n g = ((words n g).1.map (stretch 0 1), (words n g).2) :=
  draws_eq_words uniform_unit n g

theorem draws_halfSpread (spread : Float32) (n : Nat) (g : γ) :
    draws (-halfSpread spread) (halfSpread spread) n g =
      ((words n g).1.map (stretch (-halfSpread spread) (halfSpread spread)), (words n g).2) :=
  draws_eq_words (uniform_halfSpread spread) n g

end Random
end TracePlayback
