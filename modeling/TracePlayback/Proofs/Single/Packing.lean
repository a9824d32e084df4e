import TracePlayback.Proofs.Binary.Packing

/-!
# Singles, bit by bit

A single is packed into a sign, eight bits of exponent and 23 bits of mantissa. Unpacked it is a
zero, or a sign, a mantissa and an exponent, or not finite at all.

* `Fits k`: a finite unpacked number as the format writes it, that is less than `2 ^ k` in size. The
  mantissa has 24 bits, and uses all of them unless the exponent is the least one.
* `fits_iff`: those below `2 ^ 128` are the finite numbers of the format.
* `unpack_pack`: what fits below `2 ^ 128` is packed without loss.
* `fits_unpack`: every finite single is such a number.
-/
namespace TracePlayback.Single

open Float.Model (Format UnpackedFloat totalExponent)
open Float.Model.UnpackedFloat

/-- Finite, written as the format writes it, and less than `2 ^ k` in size. -/
def Fits (k : Int) : UnpackedFloat → Prop
  | .zero _ => True
  | .finite _ m e _ => m < 2 ^ 24 ∧ -149 ≤ e ∧ (2 ^ 23 ≤ m ∨ e = -149) ∧ totalExponent m e ≤ k
  | _ => False

instance (k : Int) : DecidablePred (Fits k)
  | .zero _ => instDecidableTrue
  | .finite _ m e _ =>
    inferInstanceAs
      (Decidable (m < 2 ^ 24 ∧ -149 ≤ e ∧ (2 ^ 23 ≤ m ∨ e = -149) ∧ totalExponent m e ≤ k))
  | .infinity _ => instDecidableFalse
  | .notANumber => instDecidableFalse

theorem Fits.mono {j k : Int} {u : UnpackedFloat} (h : Fits j u) (hjk : j ≤ k) : Fits k u := by
  cases u with
  | zero s => trivial
  | finite s m e hm => exact ⟨h.1, h.2.1, h.2.2.1, Int.le_trans h.2.2.2 hjk⟩
  | infinity s => exact h
  | notANumber => exact h

theorem Fits.isFinite {k : Int} {u : UnpackedFloat} (h : Fits k u) : u.isFinite = true := by
  cases u with
  | zero s => rfl
  | finite s m e hm => rfl
  | infinity s => exact h.elim
  | notANumber => exact h.elim

/-! ## The first digit -/

theorem totalExponent_le_iff {m : Nat} (hm : 0 < m) (e k : Int) :
    totalExponent m e ≤ k ↔ m < 2 ^ (k - e).toNat := by
  rw [← Nat.log2_lt hm.ne']
  unfold totalExponent
  omega

theorem log2_eq {m : Nat} (hlo : 2 ^ 23 ≤ m) (hhi : m < 2 ^ 24) : m.log2 = 23 := by
  have hne : m ≠ 0 := by omega
  have h1 := (Nat.le_log2 hne).mpr hlo
  have h2 := (Nat.log2_lt hne).mpr hhi
  omega

/-! ## Packing and unpacking -/

theorem fits_finite (s : Sign) {m : Nat} {e : Int} (hm : 0 < m) (hlt : m < 2 ^ 24) (hge : -149 ≤ e)
    (hle : e ≤ 104) (hnormal : 2 ^ 23 ≤ m ∨ e = -149) : Fits 128 (.finite s m e hm) := by
  refine ⟨hlt, hge, hnormal, (totalExponent_le_iff hm e 128).mpr ?_⟩
  exact Nat.lt_of_lt_of_le hlt (Nat.pow_le_pow_right (by decide) (by omega))

/-- The numbers below `2 ^ 128` are the finite ones of the format. -/
theorem fits_iff {u : UnpackedFloat} :
    Fits 128 u ↔ Binary.Fits Format.binary32 u ∧ u.isFinite = true := by
  cases u with
  | zero s => exact ⟨fun _ => ⟨trivial, rfl⟩, fun _ => trivial⟩
  | finite s m e hm =>
    constructor
    · rintro ⟨hlt, hge, hnormal, hsmall⟩
      have hle : e ≤ 104 := by
        rcases hnormal with hlo | rfl
        · rw [totalExponent, log2_eq hlo hlt] at hsmall
          omega
        · decide
      exact ⟨⟨hlt, hge, hnormal, show e + 23 ≤ 127 by omega⟩, rfl⟩
    · rintro ⟨⟨hlt, hge, hnormal, hle⟩, -⟩
      have hle' : e + 23 ≤ 127 := hle
      exact fits_finite s hm hlt hge (by omega) hnormal
  | infinity s => exact ⟨False.elim, fun h => nomatch h.2⟩
  | notANumber => exact ⟨False.elim, fun h => nomatch h.2⟩

theorem unpack_pack {u : UnpackedFloat} (h : Fits 128 u) : (Float32.Model.pack u).unpack = u :=
  Binary.unpack_pack (f := Format.binary32) (fits_iff.mp h).1

theorem fits_unpack {b : BitVec 32} (h : (unpack Format.binary32 b).isFinite = true) :
    Fits 128 (unpack Format.binary32 b) :=
  fits_iff.mpr ⟨Binary.fits_unpack (f := Format.binary32) (by decide) b, h⟩

end TracePlayback.Single
