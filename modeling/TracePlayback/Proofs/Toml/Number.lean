import TracePlayback.Decimal.Notation
import TracePlayback.Toml.Number
import TracePlayback.Proofs.Decimal.Shortest
import TracePlayback.Proofs.Json.Integer

/-!
# Numbers are read back from their digits

A number that is written with all its places is digits with a point among them (`Pointed`), and a
whole number is its decimal digits. No date or time has this form, and no number to another base.

* `readNumber_natural`: a natural number that has 64 bits with sign is read back.
* `exists_pointed`: the notation of a decimal with all places has digits on both sides of a point,
  and they spell its value.
* `readNumber_positional`: it is read as the double nearest to the decimal.
-/
namespace TracePlayback.Toml

open Json.Numeral (decimal decimal_eq decimal_lt decimal_ne_nil eq_zero_of_decimal_head
  extend_decimal)

/-! ## Digits -/

def digitText (ds : List Nat) : List Char := ds.map Nat.digitChar

theorem toDigits_eq (n : Nat) : Nat.toDigits 10 n = digitText (decimal n) := by
  induction n using Nat.strongRecOn with
  | ind n ih =>
    rw [Nat.toDigits_eq_if (by decide), decimal_eq]
    split
    · rfl
    · rename_i hn
      rw [ih (n / 10) (by omega), digitText, digitText, List.map_append, List.map_singleton]

theorem toList_toString (n : Nat) : (toString n).toList = digitText (decimal n) := by
  rw [← toDigits_eq]
  exact String.toList_ofList

theorem digit?_digitChar : ∀ d < 10, digit? 10 (Nat.digitChar d) = some d := by decide

theorem digitChar_ne_underscore : ∀ d < 10, Nat.digitChar d ≠ '_' := by decide

theorem isDigit_digitChar : ∀ d < 10, (Nat.digitChar d).isDigit = true := by decide

theorem digitChar_ne_zero : ∀ d < 10, d ≠ 0 → Nat.digitChar d ≠ '0' := by decide

/-- No digit and no underscore comes next. -/
def Stops (cs : List Char) : Prop := ∀ c ∈ cs.head?, digit? 10 c = none ∧ c ≠ '_'

theorem stops_cons {c : Char} {cs : List Char} (hdigit : digit? 10 c = none) (hmark : c ≠ '_') :
    Stops (c :: cs) := by
  rintro _ ⟨⟩
  exact ⟨hdigit, hmark⟩

variable {ds : List Nat} {rest : List Char}

theorem readMoreDigits_digitText (hds : ∀ d ∈ ds, d < 10) (hrest : Stops rest) :
    readMoreDigits 10 (digitText ds ++ rest) = some (ds, rest) := by
  induction ds with
  | nil =>
    cases rest with
    | nil => rfl
    | cons c rest =>
      obtain ⟨hdigit, hmark⟩ := hrest c rfl
      change readMoreDigits 10 (c :: rest) = _
      rw [readMoreDigits, hdigit]
      · rintro _ _ rfl
        exact absurd rfl hmark
      · rintro rfl
        exact absurd rfl hmark
  | cons d ds ih =>
    have hd := hds d List.mem_cons_self
    have hmark := digitChar_ne_underscore d hd
    change readMoreDigits 10 (Nat.digitChar d :: (digitText ds ++ rest)) = _
    rw [readMoreDigits, digit?_digitChar d hd]
    · rw [ih fun d hmem => hds d (List.mem_cons_of_mem _ hmem)]
      rfl
    · intro _ _ h
      exact absurd h hmark
    · intro h
      exact absurd h hmark

theorem readDigits_digitText (hne : ds ≠ []) (hds : ∀ d ∈ ds, d < 10) (hrest : Stops rest) :
    readDigits 10 (digitText ds ++ rest) = some (ds, rest) := by
  obtain ⟨d, ds, rfl⟩ := List.exists_cons_of_ne_nil hne
  obtain ⟨hd, hds⟩ := List.forall_mem_cons.mp hds
  change readDigits 10 (Nat.digitChar d :: (digitText ds ++ rest)) = _
  rw [readDigits, digit?_digitChar d hd, readMoreDigits_digitText hds hrest]
  rfl

/-- The digits of a whole number: only zero begins with a zero. -/
structure Whole (ds : List Nat) : Prop where
  ne_nil : ds ≠ []
  lt : ∀ d ∈ ds, d < 10
  zero : ds.head? = some 0 → ds = [0]

theorem whole_decimal (n : Nat) : Whole (decimal n) where
  ne_nil := decimal_ne_nil n
  lt := decimal_lt n
  zero h := by
    rw [eq_zero_of_decimal_head n h]
    rfl

theorem readWhole_digitText (hds : Whole ds) (hrest : Stops rest) :
    readWhole (digitText ds ++ rest) = some (ds, rest) := by
  have hread := readDigits_digitText hds.ne_nil hds.lt hrest
  obtain ⟨d, ds, rfl⟩ := List.exists_cons_of_ne_nil hds.ne_nil
  by_cases hzero : d = 0
  · subst hzero
    obtain rfl : ds = [] := (List.cons.inj (hds.zero rfl)).2
    rfl
  · have hd := digitChar_ne_zero d (hds.lt d List.mem_cons_self) hzero
    change readWhole (Nat.digitChar d :: (digitText ds ++ rest)) = _
    rw [readWhole]
    · exact hread
    · intro _ h
      exact absurd (List.cons.inj h).1 hd

theorem ofDigits_decimal (n : Nat) : ofDigits 10 (decimal n) = n := extend_decimal n

theorem ofDigits_append (ds es : List Nat) :
    ofDigits 10 (ds ++ es) = ofDigits 10 ds * 10 ^ es.length + ofDigits 10 es := by
  induction es using List.reverseRecOn with
  | nil => simp [ofDigits]
  | append_singleton es e ih =>
    have hlast : ∀ ds, ofDigits 10 (ds ++ [e]) = ofDigits 10 ds * 10 + e := by
      intro ds
      simp only [ofDigits, List.foldl_append, List.foldl_cons, List.foldl_nil]
    rw [← List.append_assoc, hlast, hlast, ih, List.length_append, List.length_singleton,
      Nat.pow_succ]
    ring

theorem ofDigits_zeros (n : Nat) : ofDigits 10 (List.replicate n 0) = 0 := by
  induction n with
  | zero => rfl
  | succ n ih => exact ih

/-! ## Decimal numbers -/

section Line

variable (rest : List Char)

theorem stops_line : Stops ('\n' :: rest) := stops_cons (by decide) (by decide)

theorem readExponent_line : readExponent ('\n' :: rest) = some (none, '\n' :: rest) := rfl

theorem readDecimal_whole (negative : Bool) (hds : Whole ds) :
    readDecimal negative (digitText ds ++ '\n' :: rest) =
      (integer? (if negative then -(ofDigits 10 ds) else ofDigits 10 ds)).map
        (·, '\n' :: rest) := by
  unfold readDecimal
  rw [readWhole_digitText hds (stops_line rest)]
  simp only [Option.bind_eq_bind, Option.bind_some, List.append_nil, List.isEmpty_nil]
  cases integer? (if negative then -(ofDigits 10 ds) else ofDigits 10 ds) <;> rfl

theorem readDecimal_pointed {whole fraction : List Nat} (negative : Bool) (hwhole : Whole whole)
    (hne : fraction ≠ []) (hfraction : ∀ d ∈ fraction, d < 10) :
    readDecimal negative (digitText whole ++ '.' :: (digitText fraction ++ '\n' :: rest)) =
      (finite? ⟨negative, ofDigits 10 (whole ++ fraction), -fraction.length⟩).map
        (·, '\n' :: rest) := by
  have hsome : fraction.isEmpty = false := List.isEmpty_eq_false_iff.mpr hne
  unfold readDecimal
  rw [readWhole_digitText hwhole (stops_cons (by decide) (by decide))]
  simp only [Option.bind_eq_bind, Option.bind_some,
    readDigits_digitText hne hfraction (stops_line rest), readExponent_line, hsome,
    Bool.false_eq_true, false_and, if_false, Option.getD_none, Int.zero_sub]
  cases finite? ⟨negative, ofDigits 10 (whole ++ fraction), -fraction.length⟩ <;> rfl

/-! ## Neither date nor time -/

theorem ne_line_of_isDigit {c : Char} (h : c.isDigit = true) : c ≠ '\n' := by
  rintro rfl
  exact absurd h (by decide)

theorem startsDate_eq_false {text : List Char} (h : '-' ∉ text) :
    startsDate (text ++ '\n' :: rest) = false := by
  unfold startsDate
  split
  · rename_i a b c d t hcs
    -- the line ends before or at the place of the hyphen, or the hyphen is in the text
    rcases text with _ | ⟨_, _ | ⟨_, _ | ⟨_, _ | ⟨_, _ | ⟨_, text⟩⟩⟩⟩⟩ <;>
      grind [ne_line_of_isDigit]
  · rfl

theorem startsTime_eq_false {text : List Char} (h : ':' ∉ text) :
    startsTime (text ++ '\n' :: rest) = false := by
  unfold startsTime
  split
  · rename_i a b t hcs
    rcases text with _ | ⟨_, _ | ⟨_, _ | ⟨_, text⟩⟩⟩ <;> grind [ne_line_of_isDigit]
  · rfl

theorem startsDate_of_head {a : Char} {cs : List Char} (ha : a.isDigit = false) :
    startsDate (a :: cs) = false := by
  unfold startsDate
  split
  · rename_i heq
    obtain ⟨rfl, -⟩ := List.cons.inj heq
    simp [ha]
  · rfl

theorem startsTime_of_head {a : Char} {cs : List Char} (ha : a.isDigit = false) :
    startsTime (a :: cs) = false := by
  unfold startsTime
  split
  · rename_i heq
    obtain ⟨rfl, -⟩ := List.cons.inj heq
    simp [ha]
  · rfl

/-! ## Numbers -/

/-- A number that begins with a digit and has nothing but digits and points. -/
structure Plain (text : List Char) : Prop where
  head : ∃ a ∈ text.head?, a.isDigit = true
  all : ∀ c ∈ text, c.isDigit = true ∨ c = '.'

theorem Plain.not_mem {text : List Char} (h : Plain text) {c : Char} (hdigit : c.isDigit = false)
    (hpoint : c ≠ '.') : c ∉ text := by
  intro hmem
  rcases h.all c hmem with hc | hc
  · rw [hdigit] at hc
    cases hc
  · exact hpoint hc

/-- The second character tells the number from one to another base. -/
theorem Plain.second {text t : List Char} {a c : Char} (h : Plain text)
    (heq : text ++ '\n' :: rest = a :: c :: t) : c.isDigit = true ∨ c = '.' ∨ c = '\n' := by
  rcases text with _ | ⟨b, _ | ⟨d, text⟩⟩
  · obtain ⟨_, hhead, -⟩ := h.head
    cases hhead
  · cases heq
    exact .inr (.inr rfl)
  · cases heq
    exact (h.all c (by simp)).imp_right .inl

theorem Plain.of_head {text t : List Char} {a : Char} (h : Plain text)
    (heq : text ++ '\n' :: rest = a :: t) : a.isDigit = true := by
  obtain ⟨b, hhead, hb⟩ := h.head
  obtain ⟨text, rfl⟩ : ∃ t, text = b :: t := List.head?_eq_some_iff.mp hhead
  cases heq
  exact hb

theorem readSigned_plain (negative : Bool) {text : List Char} (h : Plain text) :
    readSigned negative (text ++ '\n' :: rest) = readDecimal negative (text ++ '\n' :: rest) := by
  rw [readSigned]
  · intro t heq
    exact absurd (h.of_head rest heq) (by decide)
  · intro t heq
    exact absurd (h.of_head rest heq) (by decide)

theorem readNumber_plain {text : List Char} (h : Plain text) :
    readNumber (text ++ '\n' :: rest) = readDecimal false (text ++ '\n' :: rest) := by
  rw [← readSigned_plain rest false h, readNumber,
    if_neg (by simp [startsDate_eq_false rest (h.not_mem (by decide) (by decide))]),
    if_neg (by simp [startsTime_eq_false rest (h.not_mem (by decide) (by decide))])]
  · intro t heq
    exact absurd (h.second rest heq) (by decide)
  · intro t heq
    exact absurd (h.second rest heq) (by decide)
  · intro t heq
    exact absurd (h.second rest heq) (by decide)
  · intro t heq
    exact absurd (h.of_head rest heq) (by decide)
  · intro t heq
    exact absurd (h.of_head rest heq) (by decide)

theorem readNumber_negative (cs : List Char) : readNumber ('-' :: cs) = readSigned true cs := by
  rw [readNumber, if_neg (by simp [startsDate_of_head (a := '-') (by decide)]),
    if_neg (by simp [startsTime_of_head (a := '-') (by decide)])]

theorem readNumber_minus {text : List Char} (h : Plain text) :
    readNumber ('-' :: (text ++ '\n' :: rest)) = readDecimal true (text ++ '\n' :: rest) := by
  rw [readNumber_negative, readSigned_plain rest true h]

theorem readNumber_word {a : Char} {cs : List Char} (ha : a.isDigit = false) (hplus : a ≠ '+')
    (hminus : a ≠ '-') : readNumber (a :: cs) = readSigned false (a :: cs) := by
  rw [readNumber, if_neg (by simp [startsDate_of_head ha]),
    if_neg (by simp [startsTime_of_head ha])]
  all_goals
    intro t heq
    obtain ⟨rfl, -⟩ := List.cons.inj heq
    first
      | exact absurd ha (by decide)
      | exact absurd rfl hplus
      | exact absurd rfl hminus

theorem isDigit_of_mem {c : Char} (hds : ∀ d ∈ ds, d < 10) (hc : c ∈ digitText ds) :
    c.isDigit = true := by
  obtain ⟨d, hd, rfl⟩ := List.mem_map.mp hc
  exact isDigit_digitChar d (hds d hd)

theorem plain_digitText (hne : ds ≠ []) (hds : ∀ d ∈ ds, d < 10) : Plain (digitText ds) where
  head := by
    obtain ⟨d, ds, rfl⟩ := List.exists_cons_of_ne_nil hne
    exact ⟨_, rfl, isDigit_digitChar d (hds d List.mem_cons_self)⟩
  all c hc := .inl (isDigit_of_mem hds hc)

theorem readNumber_natural {n : Nat} (hn : n < 0x8000000000000000) :
    readNumber ((toString n).toList ++ '\n' :: rest) = some (.integer n, '\n' :: rest) := by
  rw [toList_toString, readNumber_plain rest (plain_digitText (decimal_ne_nil n) (decimal_lt n)),
    readDecimal_whole rest false (whole_decimal n), ofDigits_decimal, if_neg (by decide), integer?,
    if_pos (by omega)]
  rfl

end Line

/-! ## Numbers with a point -/

/-- The notation of a decimal with all places: digits before and after the point, and their
value. -/
structure Pointed (d : Decimal) (before after : List Nat) : Prop where
  text : d.positional = digitText before ++ '.' :: digitText after
  whole : Whole before
  ne_nil : after ≠ []
  lt : ∀ n ∈ after, n < 10
  value : (ofDigits 10 (before ++ after) : ℚ) * 10 ^ (-(after.length : Int)) = d.value

section Pointed

variable {d : Decimal} {before after : List Nat}

theorem Pointed.plain (h : Pointed d before after) : Plain d.positional where
  head := by
    obtain ⟨c, hc, hdigit⟩ := (plain_digitText h.whole.ne_nil h.whole.lt).head
    refine ⟨c, ?_, hdigit⟩
    rw [h.text, List.head?_append, Option.mem_def.mp hc]
    rfl
  all c hc := by
    rw [h.text] at hc
    rcases List.mem_append.mp hc with hc | hc
    · exact .inl (isDigit_of_mem h.whole.lt hc)
    · rcases List.mem_cons.mp hc with rfl | hc
      · exact .inr rfl
      · exact .inl (isDigit_of_mem h.lt hc)

theorem forall_mem_zeros (n : Nat) : ∀ d ∈ List.replicate n 0, d < 10 := by
  intro d hd
  rw [List.eq_of_mem_replicate hd]
  decide

/-- Digits in front of the point, if there are any, and all of them after it. -/
theorem whole_of_decimal {n : Nat} (hlt : ∀ d ∈ before, d < 10) (hne : before ≠ [])
    (hhead : before.head? = (decimal n).head?) (hzero : n = 0 → before = [0]) : Whole before where
  ne_nil := hne
  lt := hlt
  zero h := hzero (eq_zero_of_decimal_head n (hhead ▸ h))

theorem digitText_append (ds es : List Nat) :
    digitText (ds ++ es) = digitText ds ++ digitText es := List.map_append

theorem digitText_zeros (n : Nat) : digitText (List.replicate n 0) = List.replicate n '0' :=
  List.map_replicate

/-- Zeros behind the digits. -/
theorem pointed_whole (hzero : d.digits = 0 → d.exponent = 0) {e : Nat} (he : d.exponent = e) :
    Pointed d (decimal d.digits ++ List.replicate e 0) [0] where
  text := by
    rw [Decimal.positional, if_pos (by omega), Decimal.digitChars, toDigits_eq, he,
      Int.toNat_natCast, digitText_append, digitText_zeros]
    rfl
  whole := by
    have hne := decimal_ne_nil d.digits
    refine whole_of_decimal (List.forall_mem_append.mpr ⟨decimal_lt _, forall_mem_zeros e⟩)
      (by simp [hne]) (List.head?_append_of_ne_nil _ hne) fun h => ?_
    have he0 : e = 0 := by
      have := hzero h
      omega
    rw [h, he0]
    rfl
  ne_nil := by simp
  lt := by simp
  value := by
    rw [ofDigits_append, ofDigits_append, ofDigits_decimal, ofDigits_zeros, Decimal.value, he,
      List.length_replicate, List.length_singleton]
    have hlast : ofDigits 10 [0] = 0 := rfl
    push_cast [hlast]
    rw [zpow_natCast, zpow_neg, zpow_one]
    field_simp
    ring

/-- The point among the digits. -/
theorem pointed_among {p : Nat} (hlow : d.exponent < 0)
    (hp : (decimal d.digits).length + d.exponent = p) (hpos : 0 < p)
    (hzero : d.digits = 0 → d.exponent = 0) :
    Pointed d ((decimal d.digits).take p) ((decimal d.digits).drop p) where
  text := by
    have hlength : (digitText (decimal d.digits)).length = (decimal d.digits).length :=
      List.length_map _
    rw [Decimal.positional, if_neg (by omega), Decimal.digitChars, toDigits_eq]
    simp only [hlength, hp]
    rw [if_pos (by omega), Int.toNat_natCast, List.append_assoc, digitText, ← List.map_take,
      ← List.map_drop]
    rfl
  whole := by
    have hne := decimal_ne_nil d.digits
    refine whole_of_decimal (n := d.digits)
      (fun n hn => decimal_lt _ n (List.mem_of_mem_take hn)) ?_ ?_ fun h => ?_
    · simp [hne, hpos.ne']
    · rw [List.head?_take, if_neg hpos.ne']
    · have := hzero h
      omega
  ne_nil := by
    rw [ne_eq, List.drop_eq_nil_iff]
    omega
  lt n hn := decimal_lt _ n (List.mem_of_mem_drop hn)
  value := by
    rw [List.take_append_drop, ofDigits_decimal, Decimal.value, List.length_drop]
    congr 2
    omega

/-- Zeros before the digits. -/
theorem pointed_small {z : Nat} (hlow : d.exponent < 0)
    (hz : (decimal d.digits).length + d.exponent = -(z : Int)) :
    Pointed d [0] (List.replicate z 0 ++ decimal d.digits) where
  text := by
    have hlength : (digitText (decimal d.digits)).length = (decimal d.digits).length :=
      List.length_map _
    rw [Decimal.positional, if_neg (by omega), Decimal.digitChars, toDigits_eq]
    simp only [hlength, hz]
    rw [if_neg (by omega), neg_neg, Int.toNat_natCast, digitText_append, digitText_zeros]
    rfl
  whole := ⟨by simp, by simp, fun _ => rfl⟩
  ne_nil := by simp [decimal_ne_nil]
  lt := List.forall_mem_append.mpr ⟨forall_mem_zeros z, decimal_lt _⟩
  value := by
    rw [ofDigits_append, ofDigits_append, ofDigits_decimal, ofDigits_zeros, Decimal.value,
      List.length_append, List.length_replicate]
    have hfirst : ofDigits 10 [0] = 0 := rfl
    rw [hfirst]
    have he : -((z + (decimal d.digits).length : Nat) : Int) = d.exponent := by omega
    rw [he]
    simp

/-- A decimal with all its places has digits on both sides of the point. -/
theorem exists_pointed (hzero : d.digits = 0 → d.exponent = 0) :
    ∃ before after, Pointed d before after := by
  by_cases hwhole : 0 ≤ d.exponent
  · obtain ⟨e, he⟩ := Int.eq_ofNat_of_zero_le hwhole
    exact ⟨_, _, pointed_whole hzero he⟩
  · by_cases hpoint : 0 < ((decimal d.digits).length : Int) + d.exponent
    · obtain ⟨p, hp⟩ := Int.eq_ofNat_of_zero_le hpoint.le
      exact ⟨_, _, pointed_among (by omega) hp (by omega) hzero⟩
    · obtain ⟨z, hz⟩ : ∃ z : Nat, (decimal d.digits).length + d.exponent = -z :=
        ⟨(-((decimal d.digits).length + d.exponent)).toNat, by omega⟩
      exact ⟨_, _, pointed_small (by omega) hz⟩

/-- A decimal with all its places is read as the double nearest to it. -/
theorem readNumber_positional (rest : List Char) (hzero : d.digits = 0 → d.exponent = 0)
    (hfinite : (d.toFloat == 1 / 0) = false) :
    readNumber (d.signChars ++ d.positional ++ '\n' :: rest) =
      some (.float d.toFloat, '\n' :: rest) := by
  obtain ⟨before, after, h⟩ := exists_pointed hzero
  have hread : readDecimal d.negative (d.positional ++ '\n' :: rest) =
      some (.float d.toFloat, '\n' :: rest) := by
    have hnear : Decimal.toFloat ⟨d.negative, ofDigits 10 (before ++ after), -after.length⟩ =
        d.toFloat := Decimal.toFloat_congr rfl h.value
    rw [h.text, List.append_assoc, List.cons_append,
      readDecimal_pointed rest d.negative h.whole h.ne_nil h.lt, finite?]
    simp only [hnear, hfinite]
    rfl
  cases hneg : d.negative with
  | false =>
    rw [hneg] at hread
    rw [Decimal.signChars, hneg, if_neg (by decide), List.nil_append,
      readNumber_plain rest h.plain, hread]
  | true =>
    rw [hneg] at hread
    rw [Decimal.signChars, hneg, if_pos rfl, List.append_assoc]
    exact (readNumber_minus rest h.plain).trans hread

end Pointed

end TracePlayback.Toml
