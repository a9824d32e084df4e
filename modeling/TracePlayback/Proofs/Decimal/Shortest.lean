import TracePlayback.Decimal.Shortest
import TracePlayback.Proofs.Decimal.Width

/-!
# The shortest decimal reads back

The search for the shortest decimal only ever stops at one that reads back (`neighbour?_toFloat`),
and at the end of the search stands the exact value, which does (`toFloat_ofFloat?`).

* `toFloat_shortest?`: the shortest decimal of a double has that double as its nearest.
* `exponent_shortest?`: zero is written without places.
-/
namespace TracePlayback.Decimal

open Binary

variable {tie : Tie} {x : Float} {c d : Decimal}

theorem neighbour?_toFloat {places : Nat} (h : neighbour? tie x d places = some c) :
    c.toFloat = x := by
  have hbits {c : Decimal} (hc : (c.toFloat.toBits == x.toBits) = true) : c.toFloat = x :=
    Float.toBits_inj.mp (beq_iff_eq.mp hc)
  unfold neighbour? at h
  simp only at h
  split at h
  · rename_i hbelow habove
    obtain rfl := Option.some.inj h
    split
    · exact hbits hbelow
    · exact hbits habove
  · rename_i hbelow _
    obtain rfl := Option.some.inj h
    exact hbits hbelow
  · rename_i habove
    obtain rfl := Option.some.inj h
    exact hbits habove
  · cases h

theorem firstNeighbour_toFloat (hd : d.toFloat = x) (places : Nat) :
    (firstNeighbour tie x d places).toFloat = x := by
  induction places with
  | zero => exact hd
  | succ places ih =>
    rw [firstNeighbour]
    split
    · rename_i c hc
      exact neighbour?_toFloat hc
    · exact ih

/-- Zeros at the end of the digits only move the point. -/
theorem strip_spec (count : Nat) (d : Decimal) :
    (strip count d).negative = d.negative ∧ (strip count d).value = d.value := by
  induction count generalizing d with
  | zero => exact ⟨rfl, rfl⟩
  | succ count ih =>
    rw [strip]
    split
    · rename_i h
      obtain ⟨hsign, hvalue⟩ := ih { d with digits := d.digits / 10, exponent := d.exponent + 1 }
      refine ⟨hsign, hvalue.trans ?_⟩
      have hdigits : (d.digits : ℚ) = (d.digits / 10 : Nat) * 10 := by
        exact_mod_cast (Nat.div_mul_cancel (Nat.dvd_of_mod_eq_zero h.2)).symm
      rw [value, value, hdigits, zpow_add₀ (by norm_num), zpow_one]
      ring
    · exact ⟨rfl, rfl⟩

theorem toFloat_shortest? (h : shortest? tie x = some c) : c.toFloat = x := by
  obtain ⟨d, hd, hc⟩ := Option.map_eq_some_iff.mp h
  have hexact := toFloat_ofFloat? hd
  split at hc
  · rename_i hzero
    rw [← hc, ← hexact]
    exact toFloat_congr rfl (by simp [value, hzero])
  · obtain ⟨hsign, hvalue⟩ := strip_spec (length d.digits - 1 + 1)
      (firstNeighbour tie x d (length d.digits - 1))
    rw [← hc, toFloat_congr hsign hvalue]
    exact firstNeighbour_toFloat hexact _

theorem digits_eq_zero (hd : ofFloat? x = some d) (hc : c.toFloat = x) (hzero : c.digits = 0) :
    d.digits = 0 := by
  have hstands : Stands c (.zero (if c.negative then .negative else .positive)) := by
    refine ⟨rfl, by simp [value, magnitude, hzero], ?_⟩
    cases c.negative <;> rfl
  have hunpack := hstands.unpack_toFloat trivial
  have hvalue := (stands_ofFloat? hd).value
  rw [← hc, hunpack] at hvalue
  have hpow : (10 : ℚ) ^ d.exponent ≠ 0 := by positivity
  simpa [value, magnitude, hpow] using hvalue

theorem exponent_shortest? (h : shortest? tie x = some c) (hzero : c.digits = 0) :
    c.exponent = 0 := by
  have hback := toFloat_shortest? h
  obtain ⟨d, hd, hc⟩ := Option.map_eq_some_iff.mp h
  rw [if_pos (digits_eq_zero hd hback hzero)] at hc
  rw [← hc]

end TracePlayback.Decimal
