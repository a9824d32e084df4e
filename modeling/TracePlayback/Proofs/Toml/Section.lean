import TracePlayback.Proofs.Toml.Line

/-!
# Tables are read back from their sections

A table with a header of its own, each key in it given once, comes out of its section as it is.

* `parse?_tables`: so a text whose lines are the sections of tables with different names is a
  document of these tables, in their order.
-/
namespace TracePlayback.Toml

variable {α : Type}

def keys (es : List (String × α)) : List String := es.map Prod.fst

theorem keys_append (es fs : List (String × α)) : keys (es ++ fs) = keys es ++ keys fs :=
  List.map_append

theorem lookup_of_not_mem {es : List (String × α)} {key : String} (h : key ∉ keys es) :
    es.lookup key = none := by
  refine List.lookup_eq_none_iff.mpr fun e he => bne_iff_ne.mpr ?_
  rintro rfl
  exact h (List.mem_map_of_mem he)

theorem lookup_of_mem {es : List (String × α)} (hnodup : (keys es).Nodup)
    {e : String × α} (he : e ∈ es) : es.lookup e.1 = some e.2 := by
  induction es with
  | nil => cases he
  | cons d es ih =>
    obtain ⟨hnew, hrest⟩ := List.nodup_cons.mp hnodup
    rcases List.mem_cons.mp he with rfl | he
    · exact List.lookup_cons_self
    · have hne : e.1 ≠ d.1 := by
        intro heq
        exact hnew (heq ▸ List.mem_map_of_mem he)
      rw [List.lookup_cons, beq_eq_false_iff_ne.mpr hne]
      exact ih hrest he

theorem Entries.put_of_not_mem {es : Entries} {key : String} (item : Item) (h : key ∉ keys es) :
    es.put key item = es ++ [(key, item)] := by
  induction es with
  | nil => rfl
  | cons e es ih =>
    have hne : e.1 ≠ key := by
      rintro rfl
      exact h List.mem_cons_self
    rw [Entries.put, if_neg hne, ih fun hmem => h (List.mem_cons_of_mem _ hmem)]
    rfl

/-! ## Bodies -/

/-- An assignment to a key without points. -/
def assignment (a : String × Value) : Assignment := ⟨[], a.1, a.2⟩

/-- A value under construction. -/
def plain (a : String × Value) : String × Item := (a.1, .value a.2)

theorem fill_assignments {es : Entries} {as : List (String × Value)}
    (h : (keys es ++ keys as).Nodup) : fill es (as.map assignment) = some (es ++ as.map plain) := by
  induction as generalizing es with
  | nil => rw [List.map_nil, List.map_nil, List.append_nil, fill]
  | cons a as ih =>
    have hnew : a.1 ∉ keys es := by
      intro hmem
      exact (List.nodup_append.mp h).2.2 _ hmem _ List.mem_cons_self rfl
    have hset : es.setKey a.1 a.2 .header [] = some (es ++ [plain a]) := by
      rw [Entries.setKey, if_neg (by decide), lookup_of_not_mem hnew, if_neg (by decide),
        Entries.put_of_not_mem _ hnew]
      rfl
    have hrest : (keys (es ++ [plain a]) ++ keys as).Nodup := by
      rw [keys_append, List.append_assoc]
      exact h
    rw [List.map_cons, List.map_cons, fill]
    change (es.setKey a.1 a.2 .header [] >>= fun es => fill es (as.map assignment)) = _
    rw [hset, Option.bind_eq_bind, Option.bind_some, ih hrest, List.append_assoc]
    rfl

theorem entriesToValues_eq (es : Entries) :
    entriesToValues es = es.map fun e => (e.1, e.2.toValue) := by
  induction es with
  | nil => rfl
  | cons e es ih => rw [entriesToValues, ih, List.map_cons]

theorem entriesToValues_plain (as : List (String × Value)) :
    entriesToValues (as.map plain) = as := by
  rw [entriesToValues_eq, List.map_map]
  exact List.map_id as

/-! ## Sections -/

/-- A name and the entries of its table. -/
abbrev Table := String × List (String × Value)

def Table.lines (t : Table) : List Line := .table [t.1] :: t.2.map fun a => .assign (assignment a)

/-- The table under construction. -/
def Table.item (t : Table) : String × Item := (t.1, .table .header (t.2.map plain))

theorem splitSection_append (as : List Assignment) {rest : List Line}
    (hrest : splitSection rest = ([], rest)) :
    splitSection (as.map Line.assign ++ rest) = (as, rest) := by
  induction as with
  | nil => exact hrest
  | cons a as ih =>
    rw [List.map_cons, List.cons_append, splitSection, ih]

theorem splitSection_tables (ts : List Table) :
    splitSection (ts.flatMap Table.lines) = ([], ts.flatMap Table.lines) := by
  cases ts <;> rfl

theorem addSections_tables {ts : List Table} {es : Entries} {fuel : Nat}
    (hnames : (keys es ++ keys ts).Nodup) (hkeys : ∀ t ∈ ts, (keys t.2).Nodup)
    (hfuel : ts.length ≤ fuel) :
    addSections fuel es (ts.flatMap Table.lines) = some (es ++ ts.map Table.item) := by
  induction ts generalizing es fuel with
  | nil => rw [List.flatMap_nil, addSections, List.map_nil, List.append_nil]
  | cons t ts ih =>
    obtain ⟨fuel, rfl⟩ := Nat.exists_eq_succ_of_ne_zero (by simp at hfuel; omega : fuel ≠ 0)
    have hnew : t.1 ∉ keys es := fun hmem =>
      (List.nodup_append.mp hnames).2.2 _ hmem _ List.mem_cons_self rfl
    have hsplit :
        splitSection (t.2.map (fun a => .assign (assignment a)) ++ ts.flatMap Table.lines) =
          (t.2.map assignment, ts.flatMap Table.lines) := by
      have h := splitSection_append (t.2.map assignment) (splitSection_tables ts)
      rwa [List.map_map] at h
    have hopen : openTable (t.2.map assignment) none = some (.table .header (t.2.map plain)) := by
      have hfill : fill [] (t.2.map assignment) = some (t.2.map plain) :=
        fill_assignments (hkeys t List.mem_cons_self)
      rw [openTable, hfill]
      rfl
    have hchange : es.changeAt t.1 (openTable (t.2.map assignment)) [] = some (es ++ [t.item]) := by
      rw [Entries.changeAt, lookup_of_not_mem hnew, hopen]
      change some (es.put t.1 _) = _
      rw [Entries.put_of_not_mem _ hnew]
      rfl
    have hrest : (keys (es ++ [t.item]) ++ keys ts).Nodup := by
      rw [keys_append, List.append_assoc]
      exact hnames
    rw [List.flatMap_cons, Table.lines, List.cons_append, addSections]
    rw [hsplit]
    change (es.changeAt t.1 (openTable (t.2.map assignment)) [] >>= fun es =>
      addSections fuel es (ts.flatMap Table.lines)) = _
    rw [hchange, Option.bind_eq_bind, Option.bind_some,
      ih hrest (fun t' ht' => hkeys t' (List.mem_cons_of_mem _ ht')) (by simp at hfuel; omega),
      List.append_assoc]
    rfl

theorem length_le_lines (ts : List Table) : ts.length ≤ (ts.flatMap Table.lines).length := by
  induction ts with
  | nil => exact Nat.le_refl 0
  | cons t ts ih =>
    rw [List.flatMap_cons, List.length_append, List.length_cons, Table.lines, List.length_cons]
    omega

theorem parse?_tables {text : List Char} {ts : List Table}
    (hread : Reads text (ts.flatMap Table.lines)) (hmark : dropMark text = text)
    (hnames : (keys ts).Nodup) (hkeys : ∀ t ∈ ts, (keys t.2).Nodup) :
    parse? text = some (ts.map fun t => (t.1, .table t.2)) := by
  have hsections : addSections (ts.flatMap Table.lines).length [] (ts.flatMap Table.lines) =
      some (ts.map Table.item) :=
    addSections_tables hnames hkeys (length_le_lines ts)
  rw [parse?, hmark]
  simp only [hread.readLines, Option.bind_eq_bind, Option.bind_some, splitSection_tables, fill,
    hsections]
  refine congrArg some ?_
  rw [entriesToValues_eq, List.map_map]
  refine List.map_congr_left fun t _ => ?_
  change (t.1, Value.table (entriesToValues (t.2.map plain))) = _
  rw [entriesToValues_plain]

end TracePlayback.Toml
