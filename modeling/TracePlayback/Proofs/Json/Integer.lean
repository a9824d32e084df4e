import Mathlib.Data.List.Induction
import TracePlayback.Proofs.Json.Document
import TracePlayback.Proofs.Outcome

/-!
# Integers are read back from their digits

The numeral of an integer (`Numeral.ofInt`) has its decimal digits; `decimal_eq` takes the last one
off. It is spelled as JSON asks (`Numeral.spelled_ofInt`) and its value is the integer, for
every integer that fits 64 bits with or without a sign (`Numeral.value?_ofInt`).

* `Doc.readInt64_ofInt`: so every signed integer of 64 bits is read back, the least and the greatest
  included.
* `Doc.eq_ofInt_of_readInt64`: and nothing else is read as one. Digits without a zero in front are
  those of their value (`decimal_extend`), so the integer has this one numeral; a minus before zero
  makes a float.
-/
namespace TracePlayback.Json

namespace Numeral

def decimal (n : Nat) : List Nat := (Nat.toDigits 10 n).map fun c => c.toNat - 48

theorem ofInt_eq (n : Int) : ofInt n = ⟨n < 0, decimal n.natAbs, [], none⟩ := rfl

theorem digitChar_sub : ∀ d < 10, (Nat.digitChar d).toNat - 48 = d := by decide

theorem decimal_eq (n : Nat) :
    decimal n = if n < 10 then [n] else decimal (n / 10) ++ [n % 10] := by
  unfold decimal
  rw [Nat.toDigits_eq_if (by decide)]
  split
  · rename_i h
    rw [List.map_singleton, digitChar_sub n h]
  · rw [List.map_append, List.map_singleton, digitChar_sub _ (Nat.mod_lt n (by decide))]

theorem decimal_ne_nil (n : Nat) : decimal n ≠ [] := by
  rw [decimal_eq]
  split <;> simp

theorem decimal_lt (n : Nat) : ∀ d ∈ decimal n, d < 10 := by
  induction n using Nat.strongRecOn with
  | ind n ih =>
    intro d hd
    rw [decimal_eq] at hd
    split at hd
    · rename_i hn
      rwa [List.mem_singleton.mp hd]
    · rename_i hn
      rcases List.mem_append.mp hd with hd | hd
      · exact ih (n / 10) (by omega) d hd
      · rw [List.mem_singleton.mp hd]
        exact Nat.mod_lt n (by decide)

/-- Only the digits of zero begin with a zero. -/
theorem eq_zero_of_decimal_head (n : Nat) (h : (decimal n).head? = some 0) : n = 0 := by
  induction n using Nat.strongRecOn with
  | ind n ih =>
    rw [decimal_eq] at h
    split at h
    · exact Option.some.inj h
    · rename_i hn
      obtain ⟨d, ds, hds⟩ := List.exists_cons_of_ne_nil (decimal_ne_nil (n / 10))
      rw [hds] at h
      have hzero := ih (n / 10) (by omega) (by rw [hds]; exact h)
      omega

theorem spelled_ofInt (n : Int) : (ofInt n).Spelled where
  whole := ⟨decimal_ne_nil _, decimal_lt _⟩
  zero h := by
    rw [ofInt_eq] at h ⊢
    rw [eq_zero_of_decimal_head _ h]
    rfl
  fraction := by intro d hd; cases hd
  exponent := by intro minus ds h; cases h

/-! ## The value of the digits -/

/-- The number that digits make when they are appended to `n`. -/
def extend (n : Nat) (ds : List Nat) : Nat := ds.foldl (fun m d => m * 10 + d) n

theorem le_extend (n : Nat) (ds : List Nat) : n ≤ extend n ds := by
  induction ds generalizing n with
  | nil => exact Nat.le_refl n
  | cons d ds ih =>
    have hle : n * 10 + d ≤ extend n (d :: ds) := ih (n * 10 + d)
    omega

theorem extend_decimal (n : Nat) : extend 0 (decimal n) = n := by
  induction n using Nat.strongRecOn with
  | ind n ih =>
    rw [decimal_eq]
    split
    · exact Nat.zero_add n
    · rename_i hn
      have hhead := ih (n / 10) (by omega)
      simp only [extend, List.foldl_append, List.foldl_cons, List.foldl_nil] at hhead ⊢
      rw [hhead]
      omega

/-- Digits that stay within the limit are absorbed, all of them. -/
theorem absorb_eq {limit n : Nat} {ds : List Nat} (h : extend n ds ≤ limit) :
    absorb limit n ds = (extend n ds, []) := by
  induction ds generalizing n with
  | nil => rfl
  | cons d ds ih =>
    have hle : n * 10 + d ≤ extend n (d :: ds) := le_extend (n * 10 + d) ds
    rw [absorb, if_pos (Nat.le_trans hle h)]
    exact ih h

/-- An integer of 64 bits, with or without a sign, is the value of its numeral. -/
theorem value?_ofInt {n : Int} (hlow : -0x8000000000000000 ≤ n) (hhigh : n ≤ 0xFFFFFFFFFFFFFFFF) :
    (ofInt n).value? = some (.integer n) := by
  have habs : extend 0 (decimal n.natAbs) ≤ maxSignificand := by
    rw [extend_decimal, maxSignificand]
    omega
  have habsorb := absorb_eq habs
  rw [extend_decimal] at habsorb
  rw [ofInt_eq]
  simp only [value?, habsorb, List.isEmpty_nil, Option.isNone_none, and_self, not_true_eq_false,
    if_true, if_false, decide_eq_true_eq]
  split
  · have hn : (n.natAbs : Int) = n := by omega
    rw [hn]
  · rename_i hn
    have hneg : -(n.natAbs : Int) = n := by omega
    rw [if_pos (by omega), hneg]

/-- Digits with no zero in front of others are those of their value. By induction from the last
digit on. -/
theorem decimal_extend {ds : List Nat} (hne : ds ≠ []) (hds : ∀ d ∈ ds, d < 10)
    (hzero : ds.head? = some 0 → ds = [0]) :
    decimal (extend 0 ds) = ds ∧ (ds ≠ [0] → 0 < extend 0 ds) := by
  induction ds using List.reverseRecOn with
  | nil => exact absurd rfl hne
  | append_singleton init d ih =>
    obtain ⟨hinit, hd⟩ := List.forall_mem_append.mp hds
    have hd : d < 10 := hd d (List.mem_singleton_self d)
    have hlast : extend 0 (init ++ [d]) = extend 0 init * 10 + d := by
      simp only [extend, List.foldl_append, List.foldl_cons, List.foldl_nil]
    rw [hlast]
    cases init with
    | nil =>
      refine ⟨?_, fun h => ?_⟩
      · rw [decimal_eq, if_pos (by simpa [extend] using hd)]
        simp [extend]
      · have : d ≠ 0 := fun h0 => h (by rw [h0]; rfl)
        omega
    | cons c init =>
      have hc : c ≠ 0 := by
        rintro rfl
        have := hzero rfl
        simp at this
      obtain ⟨hdecimal, hpos⟩ := ih (List.cons_ne_nil _ _) hinit
        (fun h => absurd (Option.some.inj h) hc)
      have hpos := hpos fun h => hc (List.cons.inj h).1
      refine ⟨?_, fun _ => by omega⟩
      have hquot : (extend 0 (c :: init) * 10 + d) / 10 = extend 0 (c :: init) := by omega
      have hrem : (extend 0 (c :: init) * 10 + d) % 10 = d := by omega
      rw [decimal_eq, if_neg (by omega), hquot, hrem, hdecimal]

theorem extend_of_absorb {limit n m : Nat} {ds : List Nat} (h : absorb limit n ds = (m, [])) :
    m = extend n ds := by
  induction ds generalizing n with
  | nil => cases h; rfl
  | cons d ds ih =>
    rw [absorb] at h
    split at h
    · exact ih h
    · cases h

theorem eq_ofInt_of_value? {x : Numeral} (hx : x.Spelled) {k : Int}
    (h : x.value? = some (.integer k)) : x = ofInt k := by
  have hfloat : (x.magnitude?.map fun y => Number.float (if x.negative then -y else y)) ≠
      some (.integer k) := by
    cases x.magnitude? <;> nofun
  simp only [value?] at h
  split at h
  · rename_i hplain
    split at h
    · exact absurd h hfloat
    · rename_i hall
      have hleft : (absorb maxSignificand 0 x.whole).2 = [] := by simpa using hall
      have hvalue : (absorb maxSignificand 0 x.whole).1 = extend 0 x.whole :=
        extend_of_absorb (Prod.ext rfl hleft)
      obtain ⟨hdecimal, -⟩ := decimal_extend hx.whole.1 hx.whole.2 hx.zero
      rw [hvalue] at h
      obtain ⟨negative, whole, fraction, exponent⟩ := x
      obtain ⟨rfl, rfl⟩ : fraction = [] ∧ exponent = none := by simpa using hplain
      split at h
      · rename_i hnegative
        cases h
        obtain rfl : negative = false := by simpa using hnegative
        rw [ofInt_eq, Int.natAbs_natCast, hdecimal, decide_eq_false (by omega)]
      · rename_i hnegative
        obtain rfl : negative = true := by simpa using hnegative
        split at h
        · rename_i hbound
          cases h
          rw [ofInt_eq, Int.natAbs_neg, Int.natAbs_natCast, hdecimal, decide_eq_true (by omega)]
        · cases h
  · exact absurd h hfloat

end Numeral

namespace Doc

theorem readInt64_ofInt (n : Int64) : (ofInt n.toInt).readInt64 = .ok n := by
  have hlow := n.le_toInt
  have hhigh := n.toInt_lt
  have hvalue := Numeral.value?_ofInt (n := n.toInt) (by omega) (by omega)
  have hfound : (ofInt n.toInt).found = .ok (.integer n.toInt) := by
    simp only [ofInt, found, hvalue]
    rfl
  rw [readInt64, hfound]
  change (if _ then _ else _) = _
  rw [if_pos (by omega), Int64.ofInt_toInt]
  rfl

theorem eq_ofInt_of_readInt64 {d : Doc} (hd : d.Whole) {i : Int64} (h : d.readInt64 = .ok i) :
    d = .ofInt i.toInt := by
  rw [readInt64] at h
  obtain ⟨found, hfound, h⟩ := bind_eq_ok.mp h
  split at h
  · rename_i n
    split at h
    · rename_i hrange
      cases h
      rw [Int64.toInt_ofInt_of_le hrange.1 (by simpa using hrange.2)]
      cases hd with
      | number hx =>
        rename_i x
        have hvalue : x.value? = some (.integer n) := by
          rw [found] at hfound
          split at hfound <;> cases hfound
          assumption
        rw [ofInt, ← Numeral.eq_ofInt_of_value? hx hvalue]
      | quoted q => cases q <;> cases hfound
      | _ => cases hfound
    · cases h
  · cases h

end Doc
end TracePlayback.Json
