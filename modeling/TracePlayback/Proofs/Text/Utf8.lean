import TracePlayback.Text.Utf8

/-!
# UTF-8 is read back

The bytes of a character are read as this character, whatever follows them (`units_encode`): the
ranges of the next byte that the first one narrows are those of the numbers a character can have.

* `decode?_toUTF8`: so the bytes of a text are read as its characters.
-/
namespace TracePlayback.Text.Utf8

/-! ## Bytes of a text -/

theorem toList_loop (bytes : ByteArray) (i : Nat) (done : List UInt8) :
    ByteArray.toList.loop bytes i done = done.reverse ++ bytes.data.toList.drop i := by
  fun_induction ByteArray.toList.loop bytes i done with
  | case1 i done hlt ih =>
    have hi : i < bytes.data.toList.length := by simpa using hlt
    have hget : bytes.get! i = bytes.data.toList[i] := by
      rw [Array.getElem_toList]
      exact getElem!_pos bytes.data i hlt
    rw [ih, List.drop_eq_getElem_cons hi, hget]
    simp
  | case2 i done hge =>
    have hend : bytes.data.toList.length ≤ i := by simpa using hge
    rw [List.drop_eq_nil_of_le hend, List.append_nil]

theorem toList_toUTF8 (s : String) : s.toUTF8.toList = s.toList.flatMap String.utf8EncodeChar := by
  have hbytes : s.toUTF8 = s.toList.utf8Encode := String.utf8Encode_toList.symm
  rw [hbytes, ByteArray.toList, toList_loop, List.utf8Encode, List.toList_data_toByteArray]
  rfl

/-! ## Bytes of a character -/

theorem toNat_byte {n : Nat} (hn : n < 256) : (UInt8.ofNat n).toNat = n := by
  rw [UInt8.toNat_ofNat', Nat.mod_eq_of_lt hn]

/-- A byte in the range that is asked for adds six bits. -/
theorem next_some {p : Pending} {b : UInt8} (hlow : p.low ≤ b.toNat) (hhigh : b.toNat ≤ p.high) :
    next (some p) b =
      if p.missing ≤ 1 then ([.char (Char.ofNat (p.bits * 64 + (b.toNat - 0x80)))], none)
      else ([], some ⟨b :: p.seen, p.bits * 64 + (b.toNat - 0x80), p.missing - 1, 0x80, 0xBF⟩) := by
  rw [next, if_pos (by simp [hlow, hhigh])]

theorem units_last {p : Pending} {b : UInt8} (rest : List UInt8) (hlow : p.low ≤ b.toNat)
    (hhigh : b.toNat ≤ p.high) (hmissing : p.missing = 1) :
    unitsAfter (some p) (b :: rest) =
      .char (Char.ofNat (p.bits * 64 + (b.toNat - 0x80))) :: unitsAfter none rest := by
  rw [unitsAfter, next_some hlow hhigh, if_pos (by omega)]
  rfl

theorem units_more {p : Pending} {b : UInt8} (rest : List UInt8) (hlow : p.low ≤ b.toNat)
    (hhigh : b.toNat ≤ p.high) (hmissing : 1 < p.missing) :
    unitsAfter (some p) (b :: rest) = unitsAfter
      (some ⟨b :: p.seen, p.bits * 64 + (b.toNat - 0x80), p.missing - 1, 0x80, 0xBF⟩) rest := by
  rw [unitsAfter, next_some hlow hhigh, if_neg (by omega)]
  rfl

theorem units_first {b : UInt8} {p : Pending} (rest : List UInt8) (h : first b = ([], some p)) :
    unitsAfter none (b :: rest) = unitsAfter (some p) rest := by
  rw [unitsAfter, next, h]
  rfl

theorem units_encode (c : Char) (rest : List UInt8) :
    unitsAfter none (String.utf8EncodeChar c ++ rest) = .char c :: unitsAfter none rest := by
  have hvalid : c.toNat < 0xD800 ∨ 0xDFFF < c.toNat ∧ c.toNat < 0x110000 := c.valid
  have hchar : Char.ofNat c.toNat = c := Char.ofNat_toNat c
  have hval : c.val.toNat = c.toNat := rfl
  unfold String.utf8EncodeChar
  simp only [hval]
  generalize c.toNat = n at hvalid hchar ⊢
  split
  · -- one byte
    rename_i hone
    have hb := toNat_byte (n := n) (by omega)
    rw [List.singleton_append, unitsAfter, next, first, hb, if_pos (by omega), hchar]
    rfl
  · split
    · -- two bytes
      rename_i hone htwo
      have hfirst := toNat_byte (n := n / 64 % 0x20 + 0xc0) (by omega)
      have hlast := toNat_byte (n := n % 0x40 + 0x80) (by omega)
      have hbits : (n / 64 % 0x20 + 0xc0 - 0xC0) * 64 + (n % 0x40 + 0x80 - 0x80) = n := by omega
      rw [List.cons_append, List.singleton_append,
        units_first (p := ⟨_, n / 64 % 0x20 + 0xc0 - 0xC0, 1, 0x80, 0xBF⟩),
        units_last _ (by simp only [hlast]; omega) (by simp only [hlast]; omega) rfl]
      · simp only [hlast, hbits, hchar]
      · simp only [first, hfirst]
        rw [if_neg (by omega), if_pos (by simp; omega)]
    · split
      · -- three bytes: no overlong form and no surrogate
        rename_i hone htwo hthree
        have hfirst := toNat_byte (n := n / 4096 % 0x10 + 0xe0) (by omega)
        have hsecond := toNat_byte (n := n / 64 % 0x40 + 0x80) (by omega)
        have hlast := toNat_byte (n := n % 0x40 + 0x80) (by omega)
        have hbits : ((n / 4096 % 0x10 + 0xe0 - 0xE0) * 64 + (n / 64 % 0x40 + 0x80 - 0x80)) * 64 +
            (n % 0x40 + 0x80 - 0x80) = n := by omega
        rw [List.cons_append, List.cons_append, List.singleton_append,
          units_first (p := ⟨_, n / 4096 % 0x10 + 0xe0 - 0xE0, 2,
            if n / 4096 % 0x10 + 0xe0 = 0xE0 then 0xA0 else 0x80,
            if n / 4096 % 0x10 + 0xe0 = 0xED then 0x9F else 0xBF⟩),
          units_more _ (by simp only [hsecond]; split <;> omega)
            (by simp only [hsecond]; split <;> omega) (by simp),
          units_last _ (by simp only [hlast]; omega) (by simp only [hlast]; omega) rfl]
        · simp only [hsecond, hlast, hbits, hchar]
        · simp only [first, hfirst]
          rw [if_neg (by omega), if_neg (by simp), if_pos (by simp; omega)]
      · -- four bytes: no overlong form and no number above the last
        rename_i hone htwo hthree
        have hfirst := toNat_byte (n := n / 262144 % 0x08 + 0xf0) (by omega)
        have hsecond := toNat_byte (n := n / 4096 % 0x40 + 0x80) (by omega)
        have hthird := toNat_byte (n := n / 64 % 0x40 + 0x80) (by omega)
        have hlast := toNat_byte (n := n % 0x40 + 0x80) (by omega)
        have hbits : (((n / 262144 % 0x08 + 0xf0 - 0xF0) * 64 +
            (n / 4096 % 0x40 + 0x80 - 0x80)) * 64 + (n / 64 % 0x40 + 0x80 - 0x80)) * 64 +
            (n % 0x40 + 0x80 - 0x80) = n := by omega
        rw [List.cons_append, List.cons_append, List.cons_append, List.singleton_append,
          units_first (p := ⟨_, n / 262144 % 0x08 + 0xf0 - 0xF0, 3,
            if n / 262144 % 0x08 + 0xf0 = 0xF0 then 0x90 else 0x80,
            if n / 262144 % 0x08 + 0xf0 = 0xF4 then 0x8F else 0xBF⟩),
          units_more _ (by simp only [hsecond]; split <;> omega)
            (by simp only [hsecond]; split <;> omega) (by simp),
          units_more _ (by simp only [hthird]; omega) (by simp only [hthird]; omega) (by simp),
          units_last _ (by simp only [hlast]; omega) (by simp only [hlast]; omega) rfl]
        · simp only [hsecond, hthird, hlast, hbits, hchar]
        · simp only [first, hfirst]
          rw [if_neg (by omega), if_neg (by simp), if_neg (by simp), if_pos (by simp; omega)]

theorem decode?_toUTF8 (s : String) : decode? s.toUTF8.toList = some s.toList := by
  have hunits : ∀ cs : List Char,
      unitsAfter none (cs.flatMap String.utf8EncodeChar) = cs.map .char := by
    intro cs
    induction cs with
    | nil => rfl
    | cons c cs ih => rw [List.flatMap_cons, units_encode, ih, List.map_cons]
  rw [toList_toUTF8, decode?, units, hunits]
  generalize s.toList = cs
  induction cs with
  | nil => rfl
  | cons c cs ih =>
    rw [List.map_cons, List.mapM_cons, ih]
    rfl

end TracePlayback.Text.Utf8
