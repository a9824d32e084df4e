import TracePlayback.Settings.Toml
import TracePlayback.Proofs.Toml.Section

/-!
# Settings are read back from their document

The text of every value that can be written is read as that value (`Written.spells`): a float as
the double of its single, an infinity and the value that is no number by their names. So the
document of groups of settings is one of tables with these values.

* `parse?_groups`: this holds of any groups with names and keys without quotes.
* `parse?_toToml?`: and of all settings. They can be written exactly if no integer is too large
  (`isSome_toToml?`).
-/
namespace TracePlayback

open Toml
open Json.Numeral (decimal_lt decimal_ne_nil)

namespace Settings

/-! ## Values -/

/-- The value that the text of a setting stands for. -/
def Written.value : Written → Value
  | .nat n => .integer n
  | .single x => .float (widen x)
  | .bool b => .bool b

theorem ne_infinity {x : Float} {d : Decimal} (h : Decimal.ofFloat? x = some d) :
    (x == 1 / 0) = false := by
  refine Bool.eq_false_iff.mpr fun heq => ?_
  obtain ⟨-, -, rfl | ⟨-, hzero⟩ | ⟨-, hzero⟩⟩ := Float.beq_iff_ne_nan_and_eq.mp heq
  · have hinfinite : Decimal.ofFloat? (1 / 0) = none := by decide +kernel
    rw [hinfinite] at h
    cases h
  · exact absurd hzero (by decide +kernel)
  · exact absurd hzero (by decide +kernel)

theorem spells_write (x : Float) : Spells (Decimal.write format x).toList (.float x) := by
  unfold Decimal.write
  split
  · rename_i d hd
    have hback := Decimal.toFloat_shortest? hd
    obtain ⟨exact, hexact, -⟩ := Option.map_eq_some_iff.mp hd
    have hread : ∀ rest, readNumber (d.signChars ++ d.positional ++ '\n' :: rest) =
        some (.float x, '\n' :: rest) := fun rest => by
      have h := readNumber_positional rest (Decimal.exponent_shortest? hd)
        (by rw [hback]; exact ne_infinity hexact)
      rwa [hback] at h
    rw [String.toList_ofList, Decimal.magnitudeChars, if_pos (.inr rfl)]
    obtain ⟨before, after, hpointed⟩ := exists_pointed (Decimal.exponent_shortest? hd)
    obtain ⟨c, hc, hdigit⟩ := hpointed.plain.head
    refine spells_number ?_ hread
    unfold Decimal.signChars
    split
    · exact ⟨'-', rfl, .inr (.inl rfl)⟩
    · exact ⟨c, hc, .inl hdigit⟩
  · rename_i hnone
    have hexact : Decimal.ofFloat? x = none := Option.map_eq_none_iff.mp hnone
    rcases Decimal.infinite_double hexact with rfl | rfl | rfl
    · rw [if_pos (by decide +kernel)]
      exact spells_number ⟨'n', rfl, by decide⟩ fun rest =>
        readNumber_word (by decide) (by decide) (by decide)
    · rw [if_neg (by decide +kernel), if_neg (by decide +kernel)]
      exact spells_number ⟨'i', rfl, by decide⟩ fun rest =>
        readNumber_word (by decide) (by decide) (by decide)
    · have hminus : -(1 / 0 : Float) = -1 / 0 := by decide +kernel
      rw [if_neg (by decide +kernel), if_pos (by decide +kernel), ← hminus]
      exact spells_number ⟨'-', rfl, by decide⟩ fun rest => readNumber_negative _

theorem Written.spells {w : Written} {text : String} (h : w.text? = some text) :
    Spells text.toList w.value := by
  cases w with
  | nat n =>
    rw [text?] at h
    split at h
    · rename_i hn
      cases h
      have hplain : Plain (toString n).toList := by
        rw [toList_toString]
        exact plain_digitText (decimal_ne_nil n) (decimal_lt n)
      obtain ⟨c, hc, hdigit⟩ := hplain.head
      refine spells_number ⟨c, hc, .inl hdigit⟩ fun rest => readNumber_natural rest ?_
      rw [maxInteger] at hn
      omega
    · cases h
  | single x =>
    cases h
    exact spells_write (widen x)
  | bool b =>
    cases h
    cases b
    · exact spells_false
    · exact spells_true

/-! ## Groups -/

/-- A group of settings: its name, and the settings by their keys. -/
abbrev Group := String × List (String × Written)

def Group.table (g : Group) : Table := (g.1, g.2.map fun e => (e.1, e.2.value))

theorem keys_table (g : Group) : keys g.table.2 = keys g.2 := by
  rw [Group.table, keys, keys, List.map_map]
  rfl

theorem reads_assignment {e : String × Written} {text : String} (h : assignment? e = some text)
    (hkey : Bare e.1.toList) :
    Reads text.toList [.assign (Toml.assignment (e.1, e.2.value))] := by
  obtain ⟨value, hvalue, ⟨⟩⟩ := Option.bind_eq_some_iff.mp h
  have htext : (e.1 ++ " = " ++ value ++ "\n").toList = assignText e.1 value.toList := by
    simp [assignText]
  rw [htext]
  exact reads_assign hkey (Written.spells hvalue)

theorem reads_assignments {es : List (String × Written)} {texts : List String}
    (h : es.mapM assignment? = some texts) (hkeys : ∀ e ∈ es, Bare e.1.toList) :
    Reads (String.join texts).toList
      (es.map fun e => .assign (Toml.assignment (e.1, e.2.value))) := by
  induction es generalizing texts with
  | nil =>
    cases h
    exact .nil
  | cons e es ih =>
    obtain ⟨he, hes⟩ := List.forall_mem_cons.mp hkeys
    rw [List.mapM_cons] at h
    obtain ⟨text, htext, h⟩ := Option.bind_eq_some_iff.mp h
    obtain ⟨rest, hrest, ⟨⟩⟩ := Option.bind_eq_some_iff.mp h
    rw [String.join_cons, String.toList_append]
    exact (reads_assignment htext he).append (ih hrest hes)

theorem reads_group {g : Group} {text : String} (h : group? g = some text) (hname : Bare g.1.toList)
    (hkeys : ∀ e ∈ g.2, Bare e.1.toList) : Reads text.toList g.table.lines := by
  obtain ⟨texts, htexts, ⟨⟩⟩ := Option.bind_eq_some_iff.mp h
  have htext : ("[" ++ g.1 ++ "]\n" ++ String.join texts).toList =
      headerText g.1 ++ (String.join texts).toList := by
    simp [headerText]
  have hread := (reads_header hname).append (reads_assignments htexts hkeys)
  rw [htext, Table.lines, Group.table, List.map_map]
  exact hread

theorem reads_groups {gs : List Group} {texts : List String} (h : gs.mapM group? = some texts)
    (hnames : ∀ g ∈ gs, Bare g.1.toList) (hkeys : ∀ g ∈ gs, ∀ e ∈ g.2, Bare e.1.toList) :
    Reads ("\n".intercalate texts).toList ((gs.map Group.table).flatMap Table.lines) := by
  induction gs generalizing texts with
  | nil =>
    cases h
    exact .nil
  | cons g gs ih =>
    obtain ⟨hname, hnames⟩ := List.forall_mem_cons.mp hnames
    obtain ⟨hkey, hkeys⟩ := List.forall_mem_cons.mp hkeys
    rw [List.mapM_cons] at h
    obtain ⟨text, htext, h⟩ := Option.bind_eq_some_iff.mp h
    obtain ⟨rest, hrest, ⟨⟩⟩ := Option.bind_eq_some_iff.mp h
    have hfirst := reads_group htext hname hkey
    have hmore := ih hrest hnames hkeys
    rw [List.map_cons, List.flatMap_cons]
    cases gs with
    | nil =>
      obtain rfl : rest = [] := (Option.some.inj hrest).symm
      rw [String.intercalate_singleton, List.map_nil, List.flatMap_nil, List.append_nil]
      exact hfirst
    | cons g' gs =>
      have hne : rest ≠ [] := by
        rw [List.mapM_cons] at hrest
        obtain ⟨_, -, hrest⟩ := Option.bind_eq_some_iff.mp hrest
        obtain ⟨_, -, ⟨⟩⟩ := Option.bind_eq_some_iff.mp hrest
        exact List.cons_ne_nil _ _
      -- an empty line between two groups
      rw [String.intercalate_cons_of_ne_nil hne, String.toList_append, String.toList_append]
      have hall := (hfirst.append reads_empty).append hmore
      rwa [List.append_nil] at hall

theorem dropMark_groups {gs : List Group} {texts : List String} (h : gs.mapM group? = some texts) :
    dropMark ("\n".intercalate texts).toList = ("\n".intercalate texts).toList := by
  cases gs with
  | nil =>
    obtain rfl : texts = [] := (Option.some.inj h).symm
    rfl
  | cons g gs =>
    rw [List.mapM_cons] at h
    obtain ⟨text, htext, h⟩ := Option.bind_eq_some_iff.mp h
    obtain ⟨rest, -, ⟨⟩⟩ := Option.bind_eq_some_iff.mp h
    obtain ⟨lines, -, ⟨⟩⟩ := Option.bind_eq_some_iff.mp htext
    obtain ⟨more, hmore⟩ : ∃ more : List Char,
        ("\n".intercalate (("[" ++ g.1 ++ "]\n" ++ String.join lines) :: rest)).toList =
          '[' :: more := by
      cases rest <;> simp
    rw [hmore]
    rfl

/-! ## Documents -/

/-- The names of groups, and the keys in them. -/
def outline (gs : List Group) : List (String × List String) := gs.map fun g => (g.1, keys g.2)

/-- Names and keys need no quotes and are different where they stand. -/
structure Keyed (outline : List (String × List String)) : Prop where
  names : (keys outline).Nodup
  keys : ∀ g ∈ outline, g.2.Nodup
  bareNames : ∀ g ∈ outline, Bare g.1.toList
  bareKeys : ∀ g ∈ outline, ∀ key ∈ g.2, Bare key.toList

/-- The document of groups has their tables. -/
theorem parse?_groups {gs : List Group} {texts : List String} (h : gs.mapM group? = some texts)
    (hkeyed : Keyed (outline gs)) :
    parse? ("\n".intercalate texts).toList = some (gs.map fun g => (g.1, .table g.table.2)) := by
  have hmem : ∀ g ∈ gs, (g.1, Toml.keys g.2) ∈ outline gs := fun g hg => List.mem_map_of_mem hg
  have hread : Reads ("\n".intercalate texts).toList ((gs.map Group.table).flatMap Table.lines) :=
    reads_groups h (fun g hg => hkeyed.bareNames _ (hmem g hg))
      fun g hg e he => hkeyed.bareKeys _ (hmem g hg) _ (List.mem_map_of_mem he)
  have hnames : (Toml.keys (gs.map Group.table)).Nodup := by
    have h := hkeyed.names
    rw [outline, Toml.keys, List.map_map] at h
    rw [Toml.keys, List.map_map]
    exact h
  have hkeys : ∀ t ∈ gs.map Group.table, (Toml.keys t.2).Nodup := by
    intro t ht
    obtain ⟨g, hg, rfl⟩ := List.mem_map.mp ht
    rw [keys_table]
    exact hkeyed.keys _ (hmem g hg)
  rw [parse?_tables hread (dropMark_groups h) hnames hkeys, List.map_map]
  rfl

/-- The outline does not depend on the settings. -/
theorem outline_written (s : Settings) : outline s.written = outline (written {}) := rfl

theorem keyed_written (s : Settings) : Keyed (outline s.written) := by
  rw [outline_written]
  exact ⟨by decide, by decide, by decide, by decide⟩

theorem parse?_toToml? {s : Settings} {text : String} (h : s.toToml? = some text) :
    parse? text.toList = some (s.written.map fun g => (g.1, .table (Group.table g).2)) := by
  obtain ⟨texts, htexts, ⟨⟩⟩ := Option.bind_eq_some_iff.mp h
  exact parse?_groups htexts (keyed_written s)

/-! ## What can be written -/

theorem isSome_mapM {α β : Type} {f : α → Option β} {as : List α} :
    (as.mapM f).isSome = true ↔ ∀ a ∈ as, (f a).isSome = true := by
  induction as with
  | nil => simp
  | cons a as ih =>
    rw [List.mapM_cons, List.forall_mem_cons, ← ih]
    cases f a <;> cases as.mapM f <;> simp

theorem isSome_assignment? (e : String × Written) :
    (assignment? e).isSome = e.2.text?.isSome := by
  unfold assignment?
  cases e.2.text? <;> rfl

theorem isSome_group? (g : Group) :
    (group? g).isSome = true ↔ ∀ e ∈ g.2, e.2.text?.isSome = true := by
  have hbody : (group? g).isSome = (g.2.mapM assignment?).isSome := by
    unfold group?
    cases g.2.mapM assignment? <;> rfl
  simp only [hbody, isSome_mapM, isSome_assignment?]

/-- The settings that are integers. -/
def integers (s : Settings) : List Nat :=
  [s.layout.maxDtMs, s.playback.liveStepMs, s.playback.ghostMinDelayMs, s.playback.ghostTailMs]

theorem isSome_nat (n : Nat) : (Written.text? (.nat n)).isSome = true ↔ n ≤ maxInteger := by
  rw [Written.text?]
  split <;> simp [*]

/-- Only integers can be too large to be written. -/
theorem isSome_toToml? (s : Settings) :
    s.toToml?.isSome = true ↔ ∀ n ∈ s.integers, n ≤ maxInteger := by
  have hgroups : s.toToml?.isSome = (s.written.mapM group?).isSome := by
    unfold toToml?
    cases s.written.mapM group? <;> rfl
  have hsingle : ∀ x, (Written.text? (.single x)).isSome = true := fun _ => rfl
  have hbool : ∀ b, (Written.text? (.bool b)).isSome = true := fun _ => rfl
  simp only [hgroups, isSome_mapM, isSome_group?, written, integers, List.forall_mem_cons,
    List.not_mem_nil, false_imp_iff, implies_true, isSome_nat, hsingle, hbool, and_true]

end Settings
end TracePlayback
