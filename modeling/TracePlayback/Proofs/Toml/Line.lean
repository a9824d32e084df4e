import TracePlayback.Toml.Document
import TracePlayback.Proofs.Toml.Number

/-!
# Lines are read back

A line is a header, an assignment, or empty. What follows a line does not matter for what is read
from it, so the lines of a text are those of its parts (`Reads.append`).

* `Spells text v`: the text at the end of a line is read as the value.
* `reads_header`, `reads_assign`, `reads_empty`: the three lines.
* `readLines_mono`: more fuel does not change what is read.
-/
namespace TracePlayback.Toml

/-! ## Values -/

/-- At the end of a line the text is read as the value, and it does not begin with a blank. -/
structure Spells (text : List Char) (v : Value) : Prop where
  head : ∃ c ∈ text.head?, isBlank c = false
  read : ∀ fuel depth rest,
    readValue (fuel + 1) depth (text ++ '\n' :: rest) = some (v, '\n' :: rest)

theorem spells_true : Spells "true".toList (.bool true) :=
  ⟨⟨'t', by decide, by decide⟩, fun _ _ _ => rfl⟩

theorem spells_false : Spells "false".toList (.bool false) :=
  ⟨⟨'f', by decide, by decide⟩, fun _ _ _ => rfl⟩

theorem readValue_number (fuel depth : Nat) {c : Char} (cs : List Char)
    (hc : c.isDigit = true ∨ c = '-' ∨ c = 'n' ∨ c = 'i') :
    readValue (fuel + 1) depth (c :: cs) = readNumber (c :: cs) := by
  rw [readValue]
  all_goals
    intro t heq
    obtain ⟨rfl, -⟩ := List.cons.inj heq
    revert hc
    decide

theorem spells_number {text : List Char} {v : Value}
    (hhead : ∃ c ∈ text.head?, c.isDigit = true ∨ c = '-' ∨ c = 'n' ∨ c = 'i')
    (hread : ∀ rest, readNumber (text ++ '\n' :: rest) = some (v, '\n' :: rest)) :
    Spells text v := by
  obtain ⟨c, hmem, hc⟩ := hhead
  obtain ⟨cs, rfl⟩ := List.head?_eq_some_iff.mp hmem
  refine ⟨⟨c, rfl, ?_⟩,
    fun fuel depth rest => (readValue_number fuel depth _ hc).trans (hread rest)⟩
  have hnot : ∀ d, isBlank d = true → d = ' ' ∨ d = '\t' := by simp [isBlank]
  refine Bool.eq_false_iff.mpr fun hblank => ?_
  rcases hnot c hblank with rfl | rfl <;> revert hc <;> decide

/-! ## Keys -/

/-- A key without quotes. -/
structure Bare (key : List Char) : Prop where
  ne_nil : key ≠ []
  all : ∀ c ∈ key, isBare c = true

instance (key : List Char) : Decidable (Bare key) :=
  decidable_of_iff (key ≠ [] ∧ key.all isBare = true)
    ⟨fun h => ⟨h.1, List.all_eq_true.mp h.2⟩, fun h => ⟨h.1, List.all_eq_true.mpr h.2⟩⟩

theorem isBlank_of_isBare {c : Char} (hc : isBare c = true) : isBlank c = false := by
  refine Bool.eq_false_iff.mpr fun hblank => ?_
  simp only [isBlank, Bool.or_eq_true, decide_eq_true_eq] at hblank
  rcases hblank with rfl | rfl <;> exact absurd hc (by decide)

theorem skipBlanks_cons {c : Char} {cs : List Char} (hc : isBlank c = false) :
    skipBlanks (c :: cs) = c :: cs :=
  List.dropWhile_cons_of_neg (by simp [hc])

theorem readSimpleKey_bare {key : List Char} (hkey : Bare key) {b : Char} (rest : List Char)
    (hb : isBare b = false) :
    readSimpleKey (key ++ b :: rest) = some (String.ofList key, b :: rest) := by
  have htake : (key ++ b :: rest).takeWhile isBare = key := by
    rw [List.takeWhile_append_of_pos hkey.all, List.takeWhile_cons_of_neg (by simp [hb]),
      List.append_nil]
  have hdrop : (key ++ b :: rest).dropWhile isBare = b :: rest := by
    rw [List.dropWhile_append_of_pos hkey.all, List.dropWhile_cons_of_neg (by simp [hb])]
  obtain ⟨a, key, rfl⟩ := List.exists_cons_of_ne_nil hkey.ne_nil
  have ha := hkey.all a List.mem_cons_self
  rw [List.cons_append] at htake hdrop ⊢
  rw [readSimpleKey, htake, hdrop]
  all_goals
    intro t heq
    obtain ⟨rfl, -⟩ := List.cons.inj heq
    exact absurd ha (by decide)

/-- A bare key is read up to what does not belong to it and is no point. -/
theorem readKey_bare {key : List Char} (hkey : Bare key) {b c : Char} {rest after : List Char}
    (hb : isBare b = false) (hafter : skipBlanks (b :: rest) = c :: after) (hc : c ≠ '.') :
    readKey (key ++ b :: rest) = some ([String.ofList key], c :: after) := by
  have hskip : skipBlanks (key ++ b :: rest) = key ++ b :: rest := by
    obtain ⟨a, key, rfl⟩ := List.exists_cons_of_ne_nil hkey.ne_nil
    exact skipBlanks_cons (isBlank_of_isBare (hkey.all a List.mem_cons_self))
  rw [readKey, maxDepth, readKeyParts, hskip, readSimpleKey_bare hkey rest hb]
  simp only [Option.bind_eq_bind, Option.bind_some, hafter]
  split
  · rename_i heq
    exact absurd (List.cons.inj heq).1 hc
  · rfl

/-! ## Lines -/

theorem readLine_empty (fuel : Nat) (rest : List Char) :
    readLine fuel ('\n' :: rest) = some (none, rest) := rfl

def headerText (name : String) : List Char := '[' :: (name.toList ++ [']', '\n'])

theorem readLine_header (fuel : Nat) {name : String} (hname : Bare name.toList) (rest : List Char) :
    readLine fuel (headerText name ++ rest) = some (some (.table [name]), rest) := by
  have hkey : readKey (name.toList ++ ']' :: '\n' :: rest) =
      some ([name], ']' :: '\n' :: rest) := by
    rw [readKey_bare hname (by decide) rfl (by decide), String.ofList_toList]
  have htext : headerText name ++ rest = '[' :: (name.toList ++ ']' :: '\n' :: rest) := by
    simp [headerText]
  rw [htext, readLine, skipBlanks_cons (by decide)]
  split
  · rename_i heq
    cases heq
  · rename_i t heq
    obtain ⟨a, as, hname'⟩ := List.exists_cons_of_ne_nil hname.ne_nil
    have ha := hname.all a (by rw [hname']; exact List.mem_cons_self)
    rw [hname', List.cons_append] at heq
    obtain ⟨rfl, -⟩ := List.cons.inj (List.cons.inj heq).2
    exact absurd ha (by decide)
  · rename_i heq
    obtain rfl := (List.cons.inj heq).2
    rw [hkey]
    rfl
  · rename_i hno heq
    exact absurd (List.cons.inj heq).1.symm hno

def assignText (key : String) (text : List Char) : List Char :=
  key.toList ++ ' ' :: '=' :: ' ' :: (text ++ ['\n'])

theorem readLine_assign (fuel : Nat) {key : String} (hkey : Bare key.toList) {text : List Char}
    {v : Value} (hv : Spells text v) (rest : List Char) :
    readLine (fuel + 1) (assignText key text ++ rest) =
      some (some (.assign ⟨[], key, v⟩), rest) := by
  have hread : readKey (key.toList ++ ' ' :: '=' :: ' ' :: (text ++ '\n' :: rest)) =
      some ([key], '=' :: ' ' :: (text ++ '\n' :: rest)) := by
    rw [readKey_bare hkey (by decide) rfl (by decide), String.ofList_toList]
  have hskip : skipBlanks (' ' :: (text ++ '\n' :: rest)) = text ++ '\n' :: rest := by
    obtain ⟨c, hc, hblank⟩ := hv.head
    obtain ⟨t, rfl⟩ := List.head?_eq_some_iff.mp hc
    exact skipBlanks_cons hblank
  have htext : assignText key text ++ rest =
      key.toList ++ ' ' :: '=' :: ' ' :: (text ++ '\n' :: rest) := by
    simp [assignText]
  obtain ⟨a, as, hkey'⟩ := List.exists_cons_of_ne_nil hkey.ne_nil
  have ha := hkey.all a (by rw [hkey']; exact List.mem_cons_self)
  rw [hkey', List.cons_append] at hread htext
  rw [htext, readLine, skipBlanks_cons (isBlank_of_isBare ha)]
  split
  · rename_i heq
    cases heq
  · rename_i t heq
    obtain ⟨rfl, -⟩ := List.cons.inj heq
    exact absurd ha (by decide)
  · rename_i t heq
    obtain ⟨rfl, -⟩ := List.cons.inj heq
    exact absurd ha (by decide)
  · rename_i c t _ _ heq
    cases heq
    rw [if_neg, hread]
    · simp only [Option.bind_eq_bind, Option.bind_some, readChar, if_true, hskip, hv.read]
      rfl
    · rintro (rfl | rfl | rfl) <;> exact absurd ha (by decide)

/-! ## Texts of lines -/

theorem readLines_succ (fuel : Nat) {cs : List Char} (hne : cs ≠ []) :
    readLines (fuel + 1) cs = (readLine (2 * cs.length + 2) cs).bind fun read =>
      (readLines fuel read.2).map (read.1.toList ++ ·) := by
  rw [readLines]
  · refine congrArg _ (funext fun read => ?_)
    cases hread : readLines fuel read.2 <;> simp [hread]
  · exact hne

/-- More fuel does not change the lines. -/
theorem readLines_mono {fuel more : Nat} {cs : List Char} {lines : List Line}
    (h : readLines fuel cs = some lines) (hle : fuel ≤ more) : readLines more cs = some lines := by
  induction fuel generalizing more cs lines with
  | zero =>
    cases cs with
    | nil => rw [← h, readLines, readLines]
    | cons c cs => cases h
  | succ fuel ih =>
    obtain ⟨more, rfl⟩ := Nat.exists_eq_succ_of_ne_zero (by omega : more ≠ 0)
    by_cases hne : cs = []
    · subst hne
      rw [← h, readLines, readLines]
    · rw [readLines_succ fuel hne] at h
      rw [readLines_succ more hne]
      obtain ⟨⟨line, rest⟩, hline, hrest⟩ := Option.bind_eq_some_iff.mp h
      obtain ⟨lines', hlines, rfl⟩ := Option.map_eq_some_iff.mp hrest
      rw [hline, Option.bind_some, ih hlines (by omega), Option.map_some]

/-- In front of any text, the text gives these lines. -/
def Reads (text : List Char) (lines : List Line) : Prop :=
  ∀ fuel rest more, readLines fuel rest = some more →
    readLines (fuel + text.length) (text ++ rest) = some (lines ++ more)

theorem Reads.nil : Reads [] [] := fun _ _ _ h => h

theorem Reads.append {s t : List Char} {ks ls : List Line} (hs : Reads s ks) (ht : Reads t ls) :
    Reads (s ++ t) (ks ++ ls) := by
  intro fuel rest more h
  have hall := hs _ _ _ (ht _ _ _ h)
  rwa [Nat.add_assoc, Nat.add_comm t.length, ← List.length_append, ← List.append_assoc,
    ← List.append_assoc] at hall

theorem reads_line {text : List Char} (line : Option Line) (hne : text ≠ [])
    (h : ∀ fuel rest, readLine (fuel + 1) (text ++ rest) = some (line, rest)) :
    Reads text line.toList := by
  intro fuel rest more hmore
  obtain ⟨n, hn⟩ : ∃ n, text.length = n + 1 := Nat.exists_eq_succ_of_ne_zero (by simp [hne])
  rw [hn, ← Nat.add_assoc, readLines_succ _ (by simp [hne]), h, Option.bind_some,
    readLines_mono hmore (by omega), Option.map_some]

theorem reads_empty : Reads ['\n'] [] :=
  reads_line none (by simp) fun _ rest => readLine_empty _ rest

theorem reads_header {name : String} (hname : Bare name.toList) :
    Reads (headerText name) [.table [name]] :=
  reads_line (some (.table [name])) (by simp [headerText]) fun _ => readLine_header _ hname

theorem reads_assign {key : String} (hkey : Bare key.toList) {text : List Char} {v : Value}
    (hv : Spells text v) : Reads (assignText key text) [.assign ⟨[], key, v⟩] :=
  reads_line (some (.assign ⟨[], key, v⟩)) (by simp [assignText])
    fun _ => readLine_assign _ hkey hv

theorem Reads.readLines {text : List Char} {lines : List Line} (h : Reads text lines) :
    Toml.readLines (text.length + 1) text = some lines := by
  have hall := h 1 [] [] rfl
  rwa [List.append_nil, List.append_nil, Nat.add_comm] at hall

end TracePlayback.Toml
