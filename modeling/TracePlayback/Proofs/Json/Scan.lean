import TracePlayback.Json.Writer

/-!
# Tokens are scanned from their spellings

The scanner is given as many turns as the text has characters. Every token takes one at least
(`length_scanToken_le`), so the turns never run out, and `scan_cons` says what scanning does without
them.

A token may have many spellings (`Token.Lexeme`): a character in quotes stands for itself or is
escaped (`Piece.Spelling`), and the exponent of a numeral has either letter and a sign or none
(`ExponentSpelling`).

* `Piece.Spellings.scanQuoted_close`: a text in quotes is read back from each of them.
* `scanNumeral_spelling`: so is a numeral that is spelled as JSON asks (`Numeral.Spelled`), as long
  as what follows does not continue it (`Stops`).
* `Token.Lexeme.scan`: so is every token.
* `Token.Sound.lexeme`: what is written for a token is one of its spellings.
-/
namespace TracePlayback.Json

/-! ## Every token takes a character -/

/-- What a scanner leaves is no longer than `n` characters. -/
def Scan.Within {α : Type} (n : Nat) : Scan α → Prop
  | .done _ rest => rest.length ≤ n
  | .broken _ => True

theorem Scan.Within.mono {α : Type} {n m : Nat} {s : Scan α} (h : s.Within n) (hle : n ≤ m) :
    s.Within m := by
  cases s with
  | done a rest => exact Nat.le_trans h hle
  | broken b => trivial

theorem scanQuoted_within (pieces : List Piece) (cs : List Char) :
    (scanQuoted pieces cs).Within cs.length := by
  fun_induction scanQuoted pieces cs
  case case2 | case3 => exact Nat.le_succ _
  case case5 ih => exact ih.mono (by simp only [List.length_cons]; omega)
  case case8 ih => exact ih.mono (by simp only [List.length_cons]; omega)
  case case11 ih => exact ih.mono (Nat.le_succ _)
  all_goals trivial

theorem length_spanDigits_add (cs : List Char) :
    (spanDigits cs).1.length + (spanDigits cs).2.length = cs.length := by
  simp only [spanDigits, List.length_map, ← List.length_append, List.takeWhile_append_dropWhile]

theorem length_spanDigits_le (cs : List Char) : (spanDigits cs).2.length ≤ cs.length :=
  (List.dropWhile_sublist _).length_le

theorem scanFraction_within (cs : List Char) : (scanFraction cs).Within cs.length := by
  unfold scanFraction
  split
  · rename_i rest
    have h := length_spanDigits_le rest
    split
    · trivial
    · rename_i ds after _ hds
      rw [hds] at h
      exact Nat.le_succ_of_le h
  · exact Nat.le_refl _

/-- The digits of an exponent, whose sign has been read. -/
def scanPower (minus : Bool) (cs : List Char) : Scan (Option (Bool × List Nat)) :=
  match spanDigits cs with
  | ([], _) => .broken (missingDigit cs)
  | (ds, rest) => .done (some (minus, ds)) rest

/-- An exponent after its letter. -/
def scanSigned : List Char → Scan (Option (Bool × List Nat))
  | '-' :: rest => scanPower true rest
  | '+' :: rest => scanPower false rest
  | rest => scanPower false rest

theorem scanExponent_eq (cs : List Char) :
    scanExponent cs =
      match cs with
      | 'e' :: rest => scanSigned rest
      | 'E' :: rest => scanSigned rest
      | _ => .done none cs := rfl

theorem scanPower_within (minus : Bool) (cs : List Char) :
    (scanPower minus cs).Within cs.length := by
  unfold scanPower
  have h := length_spanDigits_le cs
  split
  · trivial
  · rename_i ds after _ hds
    rw [hds] at h
    exact h

theorem scanSigned_within (cs : List Char) : (scanSigned cs).Within cs.length := by
  unfold scanSigned
  split
  · exact (scanPower_within true _).mono (Nat.le_succ _)
  · exact (scanPower_within false _).mono (Nat.le_succ _)
  · exact scanPower_within false _

theorem scanExponent_within (cs : List Char) : (scanExponent cs).Within cs.length := by
  rw [scanExponent_eq]
  split
  · exact (scanSigned_within _).mono (Nat.le_succ _)
  · exact (scanSigned_within _).mono (Nat.le_succ _)
  · exact Nat.le_refl _

theorem scanNumeral_within (negative : Bool) (cs : List Char) :
    (scanNumeral negative cs).Within (cs.length - 1) := by
  unfold scanNumeral
  have hspan := length_spanDigits_add cs
  split
  · trivial
  · trivial
  · rename_i whole rest hne _ hds
    simp only [hds] at hspan
    have hwhole : 0 < whole.length := List.length_pos_iff.mpr hne
    have hfraction := scanFraction_within rest
    split
    · trivial
    · rename_i fraction rest' hf
      rw [hf] at hfraction
      have hexponent := scanExponent_within rest'
      split
      · trivial
      · rename_i exponent rest'' he
        rw [he] at hexponent
        simp only [Scan.Within] at hfraction hexponent ⊢
        omega

theorem scanWord_within (word cs : List Char) : (scanWord word cs).Within cs.length := by
  fun_induction scanWord word cs
  case case1 => exact Nat.le_refl _
  case case3 ih => exact ih.mono (Nat.le_succ _)
  all_goals trivial

/-- The token that a scanner's answer stands for. -/
def Scan.token {α : Type} (lead : Lead) (token : α → Token) : Scan α → Token × List Char
  | .done a rest => (token a, rest)
  | .broken b => (.broken lead b, [])

theorem Scan.Within.length_token_le {α : Type} {n : Nat} {s : Scan α} (h : s.Within n) (lead : Lead)
    (token : α → Token) : (s.token lead token).2.length ≤ n := by
  cases s with
  | done a rest => exact h
  | broken b => exact Nat.zero_le n

theorem length_scanToken_le (c : Char) (rest : List Char) :
    (scanToken c rest).2.length ≤ rest.length := by
  unfold scanToken
  split
  case h_7 => exact (scanQuoted_within [] rest).length_token_le .quoted .quoted
  case h_8 =>
    exact ((scanNumeral_within true rest).mono (Nat.sub_le _ 1)).length_token_le .plain .number
  case h_9 => exact (scanWord_within _ rest).length_token_le .plain fun _ => .null
  case h_10 => exact (scanWord_within _ rest).length_token_le .plain fun _ => .bool true
  case h_11 => exact (scanWord_within _ rest).length_token_le .plain fun _ => .bool false
  case h_12 =>
    split
    · exact (scanNumeral_within false (c :: rest)).length_token_le .plain .number
    · exact Nat.zero_le _
  all_goals exact Nat.le_refl _

/-- Turns beyond the characters of a text do nothing. -/
theorem scanAux_eq_of_length_le {n m : Nat} {cs : List Char} (hn : cs.length ≤ n)
    (hm : cs.length ≤ m) : scanAux n cs = scanAux m cs := by
  induction n generalizing m cs with
  | zero =>
    obtain rfl := List.length_eq_zero_iff.mp (Nat.le_zero.mp hn)
    cases m <;> rfl
  | succ n ih =>
    cases cs with
    | nil => cases m <;> rfl
    | cons c rest =>
      obtain ⟨m, rfl⟩ : ∃ k, m = k + 1 := ⟨m - 1, by simp only [List.length_cons] at hm; omega⟩
      have hn' := Nat.le_of_succ_le_succ hn
      have hm' := Nat.le_of_succ_le_succ hm
      have hle := length_scanToken_le c rest
      simp only [scanAux]
      split
      · exact ih hn' hm'
      · exact congrArg (_ :: ·) (ih (Nat.le_trans hle hn') (Nat.le_trans hle hm'))

theorem scan_nil : scan [] = [] := rfl

/-- Scanning, without turns. -/
theorem scan_cons (c : Char) (rest : List Char) :
    scan (c :: rest) =
      if isSpace c then scan rest else (scanToken c rest).1 :: scan (scanToken c rest).2 := by
  have hle := length_scanToken_le c rest
  have hafter := scanAux_eq_of_length_le hle (Nat.le_refl (scanToken c rest).2.length)
  change scanAux (rest.length + 1) (c :: rest) = _
  simp only [scanAux, hafter]
  rfl

/-! ## Texts in quotes -/

/-- The ways to spell a piece of a text: a character as it is, a character by a letter after a
backslash, or a code of four hexadecimal digits, which may be half a surrogate pair. -/
inductive Piece.Spelling : Piece → List Char → Prop
  | plain {c : Char} (printable : 0x20 ≤ c.toNat) (quote : c ≠ '"') (slash : c ≠ '\\') :
      Spelling (.char c) [c]
  | letter {c e : Char} (h : simpleEscape? c = some e) : Spelling (.char e) ['\\', c]
  | code {a b c d : Char} {n : Nat} (h : hexCode? a b c d = some n) :
      Spelling (.ofCode n) ['\\', 'u', a, b, c, d]

/-- The ways to spell pieces one after another. -/
inductive Piece.Spellings : List Piece → List Char → Prop
  | nil : Spellings [] []
  | cons {p : Piece} {ps : List Piece} {cs body : List Char} (h : p.Spelling cs)
      (rest : Spellings ps body) : Spellings (p :: ps) (cs ++ body)

/-- What a text of the given pieces says, if its halves find each other. -/
def Quoted.ofPieces (ps : List Piece) : Quoted :=
  match Piece.join? ps with
  | some cs => .text (String.ofList cs)
  | none => .unpaired

theorem Piece.Spelling.scanQuoted {p : Piece} {cs : List Char} (h : p.Spelling cs)
    (pieces : List Piece) (rest : List Char) :
    scanQuoted pieces (cs ++ rest) = scanQuoted (p :: pieces) rest := by
  cases h with
  | @plain c printable quote slash =>
    rw [List.singleton_append, Json.scanQuoted, if_neg (by omega)]
    · exact quote
    all_goals intros; exact slash ‹_›
  | @letter c e h =>
    unfold simpleEscape? at h
    split at h <;> cases h <;> rfl
  | @code a b c d n h => simp only [List.cons_append, List.nil_append, Json.scanQuoted, h]

theorem Piece.Spellings.scanQuoted {ps : List Piece} {body : List Char} (h : Spellings ps body)
    (pieces : List Piece) (rest : List Char) :
    scanQuoted pieces (body ++ rest) = scanQuoted (ps.reverse ++ pieces) rest := by
  induction h generalizing pieces with
  | nil => rfl
  | cons hp _ ih =>
    rw [List.append_assoc, hp.scanQuoted, ih]
    simp only [List.reverse_cons, List.append_assoc, List.singleton_append]

theorem Piece.Spellings.scanQuoted_close {ps : List Piece} {body : List Char}
    (h : Spellings ps body) (rest : List Char) :
    Json.scanQuoted [] (body ++ '"' :: rest) = .done (.ofPieces ps) rest := by
  rw [h.scanQuoted, Json.scanQuoted, List.append_nil, List.reverse_reverse, Quoted.ofPieces]
  cases Piece.join? ps <;> rfl

theorem join?_map_char (cs : List Char) : Piece.join? (cs.map .char) = some cs := by
  induction cs with
  | nil => rfl
  | cons c cs ih => rw [List.map_cons, Piece.join?, ih, Option.map_some]

theorem Quoted.ofPieces_map_char (s : String) : ofPieces (s.toList.map .char) = .text s := by
  simp only [ofPieces, join?_map_char, String.ofList_toList]

theorem hexValue?_hexDigit : ∀ n < 16, hexValue? (hexDigit n) = some n := by decide

/-- The writer spells a character. -/
theorem spelling_writeChar (c : Char) : (Piece.char c).Spelling (writeChar c) := by
  unfold writeChar
  split
  · rename_i h; subst h; exact .letter rfl
  split
  · rename_i h; subst h; exact .letter rfl
  split
  · rename_i h; subst h; exact .letter rfl
  split
  · rename_i h; subst h; exact .letter rfl
  split
  · rename_i h; subst h; exact .letter rfl
  split
  · rename_i h; subst h; exact .letter rfl
  split
  · rename_i h; subst h; exact .letter rfl
  split
  · have hhigh := hexValue?_hexDigit (c.toNat / 16) (by omega)
    have hlow := hexValue?_hexDigit (c.toNat % 16) (by omega)
    have hzero : hexValue? '0' = some 0 := by decide
    have hcode : hexCode? '0' '0' (hexDigit (c.toNat / 16)) (hexDigit (c.toNat % 16)) =
        some c.toNat := by
      simp only [hexCode?, hzero, hhigh, hlow, Option.bind_eq_bind, Option.bind_some,
        Option.pure_def, Option.some.injEq]
      omega
    have hpiece : Piece.ofCode c.toNat = .char c := by
      rw [Piece.ofCode, if_neg (by omega), Char.ofNat_toNat]
    exact hpiece ▸ .code hcode
  · rename_i hquote hslash _ _ _ _ _ hcontrol
    exact .plain (by omega) hquote hslash

theorem spellings_flatMap (cs : List Char) :
    Piece.Spellings (cs.map .char) (cs.flatMap writeChar) := by
  induction cs with
  | nil => exact .nil
  | cons c cs ih => exact .cons (spelling_writeChar c) ih

/-! ## Numerals -/

def digitChars (ds : List Nat) : List Char := ds.map fun d => Char.ofNat (d + 48)

/-- A numeral as JSON spells it: with digits wherever there is a place for them, and no zero in
front of others. -/
structure Numeral.Spelled (n : Numeral) : Prop where
  whole : n.whole ≠ [] ∧ ∀ d ∈ n.whole, d < 10
  /-- A zero in front stands alone. -/
  zero : n.whole.head? = some 0 → n.whole = [0]
  fraction : ∀ d ∈ n.fraction, d < 10
  exponent : ∀ minus ds, n.exponent = some (minus, ds) → ds ≠ [] ∧ ∀ d ∈ ds, d < 10

/-- A text that does not go on with a digit. -/
def NoDigit (cs : List Char) : Prop := ∀ c, cs.head? = some c → c.isDigit = false

/-- A text that does not go on with anything a numeral could go on with. -/
def Stops (cs : List Char) : Prop :=
  NoDigit cs ∧ ∀ c, cs.head? = some c → c ≠ '.' ∧ c ≠ 'e' ∧ c ≠ 'E'

theorem isDigit_digitChar : ∀ d < 10, (Char.ofNat (d + 48)).isDigit = true := by decide

theorem toNat_digitChar : ∀ d < 10, (Char.ofNat (d + 48)).toNat - 48 = d := by decide

theorem spanDigits_digitChars {ds : List Nat} (hds : ∀ d ∈ ds, d < 10) {rest : List Char}
    (hrest : NoDigit rest) : spanDigits (digitChars ds ++ rest) = (ds, rest) := by
  have hall : ∀ c ∈ digitChars ds, c.isDigit = true := by
    intro c hc
    obtain ⟨d, hd, rfl⟩ := List.mem_map.mp hc
    exact isDigit_digitChar d (hds d hd)
  have htake : rest.takeWhile Char.isDigit = [] ∧ rest.dropWhile Char.isDigit = rest := by
    cases rest with
    | nil => exact ⟨rfl, rfl⟩
    | cons c rest =>
      have hc : c.isDigit = false := hrest c rfl
      simp only [List.takeWhile_cons, List.dropWhile_cons, hc, Bool.false_eq_true, if_false,
        and_self]
  have hvalues : (digitChars ds).map (fun c => c.toNat - 48) = ds := by
    rw [digitChars, List.map_map]
    refine (List.map_congr_left fun d hd => toNat_digitChar d (hds d hd)).trans ?_
    exact List.map_id' ds
  rw [spanDigits, List.takeWhile_append_of_pos hall, List.dropWhile_append_of_pos hall, htake.1,
    htake.2, List.append_nil, hvalues]

def fractionChars (ds : List Nat) : List Char := if ds.isEmpty then [] else '.' :: digitChars ds

/-- The ways to spell an exponent: after either letter, and with a plus or without a sign if it has
no minus. -/
inductive ExponentSpelling : Option (Bool × List Nat) → List Char → Prop
  | none : ExponentSpelling none []
  | minus {letter : Char} (h : letter = 'e' ∨ letter = 'E') (ds : List Nat) :
      ExponentSpelling (some (true, ds)) (letter :: '-' :: digitChars ds)
  | plus {letter : Char} (h : letter = 'e' ∨ letter = 'E') (ds : List Nat) :
      ExponentSpelling (some (false, ds)) (letter :: '+' :: digitChars ds)
  | bare {letter : Char} (h : letter = 'e' ∨ letter = 'E') (ds : List Nat) :
      ExponentSpelling (some (false, ds)) (letter :: digitChars ds)

/-- The characters of a numeral whose exponent is spelled as `power`. -/
def Numeral.chars (n : Numeral) (power : List Char) : List Char :=
  (if n.negative then ['-'] else []) ++ digitChars n.whole ++ fractionChars n.fraction ++ power

theorem Numeral.write_eq (n : Numeral) :
    ∃ power, ExponentSpelling n.exponent power ∧ n.write = n.chars power := by
  obtain ⟨negative, whole, fraction, exponent⟩ := n
  match exponent with
  | .none => exact ⟨_, .none, rfl⟩
  | some (true, ds) => exact ⟨_, .minus (.inl rfl) ds, rfl⟩
  | some (false, ds) => exact ⟨_, .bare (.inl rfl) ds, rfl⟩

theorem digitChars_head {ds : List Nat} (hne : ds ≠ []) (hds : ∀ d ∈ ds, d < 10) :
    ∃ c cs, digitChars ds = c :: cs ∧ c.isDigit = true := by
  cases ds with
  | nil => exact absurd rfl hne
  | cons d ds => exact ⟨_, _, rfl, isDigit_digitChar d (hds d List.mem_cons_self)⟩

theorem scanPower_digitChars (minus : Bool) {ds : List Nat} (hne : ds ≠ [])
    (hds : ∀ d ∈ ds, d < 10) {rest : List Char} (hrest : NoDigit rest) :
    scanPower minus (digitChars ds ++ rest) = .done (some (minus, ds)) rest := by
  rw [scanPower, spanDigits_digitChars hds hrest]
  split
  · rename_i h; exact absurd (congrArg Prod.fst h) hne
  · rename_i h; obtain ⟨rfl, rfl⟩ := Prod.mk.inj h; rfl

/-- After either letter the sign and the digits are read. -/
theorem scanExponent_letter {letter : Char} (h : letter = 'e' ∨ letter = 'E') (cs : List Char) :
    scanExponent (letter :: cs) = scanSigned cs := by
  rcases h with rfl | rfl <;> rfl

theorem scanExponent_spelling {e : Option (Bool × List Nat)} {power : List Char}
    (h : ExponentSpelling e power)
    (he : ∀ minus ds, e = some (minus, ds) → ds ≠ [] ∧ ∀ d ∈ ds, d < 10) {rest : List Char}
    (hrest : Stops rest) : scanExponent (power ++ rest) = .done e rest := by
  cases h with
  | none =>
    rw [List.nil_append, scanExponent_eq]
    split
    · exact absurd rfl (hrest.2 'e' rfl).2.1
    · exact absurd rfl (hrest.2 'E' rfl).2.2
    · rfl
  | minus h ds =>
    obtain ⟨hne, hds⟩ := he _ ds rfl
    rw [List.cons_append, scanExponent_letter h]
    exact scanPower_digitChars true hne hds hrest.1
  | plus h ds =>
    obtain ⟨hne, hds⟩ := he _ ds rfl
    rw [List.cons_append, scanExponent_letter h]
    exact scanPower_digitChars false hne hds hrest.1
  | bare h ds =>
    obtain ⟨hne, hds⟩ := he _ ds rfl
    have hpower := scanPower_digitChars false hne hds hrest.1
    obtain ⟨c, cs, hcs, hc⟩ := digitChars_head hne hds
    rw [List.cons_append, scanExponent_letter h]
    rw [hcs, List.cons_append] at hpower ⊢
    rw [scanSigned]
    · exact hpower
    · intro tail h; cases h; cases hc
    · intro tail h; cases h; cases hc

theorem scanFraction_write {ds : List Nat} (hds : ∀ d ∈ ds, d < 10) {rest : List Char}
    (hrest : NoDigit rest) (hpoint : rest.head? ≠ some '.') :
    scanFraction (fractionChars ds ++ rest) = .done ds rest := by
  cases ds with
  | nil =>
    rw [fractionChars, List.isEmpty_nil, if_pos rfl, List.nil_append, scanFraction]
    intro tail h
    rw [h] at hpoint
    exact hpoint rfl
  | cons d ds =>
    have hspan := spanDigits_digitChars hds hrest
    rw [fractionChars, List.isEmpty_cons, if_neg (by decide), List.cons_append, scanFraction]
    simp only [hspan]

/-- A numeral is read back as it is spelled. -/
theorem scanNumeral_spelling {n : Numeral} (h : n.Spelled) {power : List Char}
    (hpower : ExponentSpelling n.exponent power) {rest : List Char} (hrest : Stops rest) :
    scanNumeral n.negative
      (digitChars n.whole ++ (fractionChars n.fraction ++ (power ++ rest))) = .done n rest := by
  have hexponent := scanExponent_spelling hpower h.exponent hrest
  -- What follows the fraction is an exponent or the rest: neither goes on with a digit or a point.
  have hafter : ∀ c, (power ++ rest).head? = some c → c.isDigit = false ∧ c ≠ '.' := by
    intro c hc
    generalize n.exponent = e at hpower
    cases hpower with
    | none => exact ⟨hrest.1 c hc, (hrest.2 c hc).1⟩
    | minus h | plus h | bare h => cases hc; rcases h with rfl | rfl <;> decide
  have hfraction := scanFraction_write h.fraction (fun c hc => (hafter c hc).1)
    (fun hc => (hafter '.' hc).2 rfl)
  have hwhole : NoDigit (fractionChars n.fraction ++ (power ++ rest)) := by
    intro c hc
    unfold fractionChars at hc
    split at hc
    · exact (hafter c hc).1
    · cases hc; decide
  rw [scanNumeral, spanDigits_digitChars h.whole.2 hwhole]
  split
  · rename_i hnil; exact absurd (congrArg Prod.fst hnil) h.whole.1
  · rename_i hzero
    have hhead := congrArg Prod.fst hzero
    simp only at hhead
    have hone := h.zero (by rw [hhead]; rfl)
    rw [hhead] at hone; cases hone
  · rename_i hspan
    obtain ⟨rfl, rfl⟩ := Prod.mk.inj hspan
    simp only [hfraction, hexponent]

/-! ## Tokens -/

/-- The ways to spell a token. -/
inductive Token.Lexeme : Token → List Char → Prop
  | openList : Lexeme .openList ['[']
  | closeList : Lexeme .closeList [']']
  | openObject : Lexeme .openObject ['\x7b']
  | closeObject : Lexeme .closeObject ['\x7d']
  | comma : Lexeme .comma [',']
  | colon : Lexeme .colon [':']
  | null : Lexeme .null ['n', 'u', 'l', 'l']
  | yes : Lexeme (.bool true) ['t', 'r', 'u', 'e']
  | no : Lexeme (.bool false) ['f', 'a', 'l', 's', 'e']
  | number {n : Numeral} (h : n.Spelled) {power : List Char}
      (hpower : ExponentSpelling n.exponent power) : Lexeme (.number n) (n.chars power)
  | quoted {ps : List Piece} {body : List Char} (h : Piece.Spellings ps body) :
      Lexeme (.quoted (.ofPieces ps)) ('"' :: body ++ ['"'])

/-- A token that has a text of its own. -/
def Token.Sound : Token → Prop
  | .number n => n.Spelled
  | .quoted .unpaired => False
  | .broken _ _ => False
  | _ => True

theorem Token.Sound.lexeme {t : Token} (ht : t.Sound) : t.Lexeme t.write := by
  cases t with
  | number n =>
    obtain ⟨power, hpower, hwrite⟩ := n.write_eq
    rw [Token.write, hwrite]
    exact .number ht hpower
  | quoted q =>
    cases q with
    | unpaired => exact ht.elim
    | text s =>
      have h := Token.Lexeme.quoted (spellings_flatMap s.toList)
      rwa [Quoted.ofPieces_map_char] at h
  | broken lead b => exact ht.elim
  | bool b =>
    cases b with
    | true => exact .yes
    | false => exact .no
  | _ => constructor

/-- Nothing that follows the token continues it. -/
def Token.Ends : Token → List Char → Prop
  | .number _, rest => Stops rest
  | _, _ => True

theorem ne_of_isDigit {c d : Char} (hc : c.isDigit = true) (hd : d.isDigit = false) : c ≠ d := by
  rintro rfl; rw [hc] at hd; cases hd

theorem isSpace_of_isDigit {c : Char} (h : c.isDigit = true) : isSpace c = false := by
  have hblank : c ≠ ' ' := ne_of_isDigit h rfl
  have hline : c ≠ '\n' := ne_of_isDigit h rfl
  have htab : c ≠ '\t' := ne_of_isDigit h rfl
  have hreturn : c ≠ '\r' := ne_of_isDigit h rfl
  simp only [isSpace, hblank, hline, htab, hreturn, decide_false, Bool.or_self]

theorem scanToken_digit {c : Char} (h : c.isDigit = true) (rest : List Char) :
    scanToken c rest = (scanNumeral false (c :: rest)).token .plain .number := by
  unfold scanToken
  split
  case h_12 => rw [if_pos h]; rfl
  all_goals exact absurd rfl (ne_of_isDigit h rfl)

theorem scan_of_scanToken {c : Char} {cs rest : List Char} {t : Token} (hc : isSpace c = false)
    (h : scanToken c cs = (t, rest)) : scan (c :: cs) = t :: scan rest := by
  rw [scan_cons, hc, if_neg (by decide), h]

/-- However a token is spelled, it is read back, and the text after it is left. -/
theorem Token.Lexeme.scan {t : Token} {lexeme : List Char} (h : t.Lexeme lexeme)
    {rest : List Char} (hrest : t.Ends rest) : scan (lexeme ++ rest) = t :: scan rest := by
  cases h with
  | @quoted ps body h =>
    simp only [List.cons_append, List.append_assoc, List.nil_append]
    refine scan_of_scanToken rfl ?_
    change (scanQuoted [] _).token .quoted .quoted = _
    rw [h.scanQuoted_close]; rfl
  | @number n h power hpower =>
    have hn := scanNumeral_spelling h hpower hrest
    rw [Numeral.chars]
    simp only [List.append_assoc]
    cases hneg : n.negative with
    | true =>
      rw [hneg] at hn
      rw [if_pos rfl, List.singleton_append]
      refine scan_of_scanToken rfl ?_
      change (scanNumeral true _).token .plain .number = _
      rw [hn]; rfl
    | false =>
      rw [hneg] at hn
      obtain ⟨c, cs, hcs, hc⟩ := digitChars_head h.whole.1 h.whole.2
      rw [if_neg (by decide), List.nil_append]
      rw [hcs, List.cons_append] at hn ⊢
      refine scan_of_scanToken (isSpace_of_isDigit hc) ?_
      rw [scanToken_digit hc, hn]; rfl
  | _ => exact scan_of_scanToken rfl rfl

theorem scan_blank {blank : List Char} (h : ∀ c ∈ blank, isSpace c) (rest : List Char) :
    scan (blank ++ rest) = scan rest := by
  induction blank with
  | nil => rfl
  | cons c blank ih =>
    obtain ⟨hc, hblank⟩ := List.forall_mem_cons.mp h
    rw [List.cons_append, scan_cons, if_pos hc, ih hblank]

end TracePlayback.Json
