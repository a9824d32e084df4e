import TracePlayback.Proofs.Toml.Section

/-!
# No key is given twice

Whatever is read as a table, each of its keys stands for one value: a key is only ever added where
it is missing, or what it holds is replaced (`keys_put`). The tables of a document come about in
three ways, and this holds of each: by a header, by a key with points, and between braces.

* `parse?_distinct`: it holds of the document itself and of the tables in it.
-/
namespace TracePlayback.Toml

/-- A value that is a table has no key twice. -/
def Value.Distinct : Value → Prop
  | .table es => (keys es).Nodup
  | _ => True

/-- A table under construction has no key twice. -/
def Item.Distinct : Item → Prop
  | .value v => v.Distinct
  | .table _ es => (keys es).Nodup
  | .tables _ => True

/-- No key is there twice, nor in a table right below. -/
structure Entries.Distinct (es : Entries) : Prop where
  keys : (keys es).Nodup
  items : ∀ e ∈ es, e.2.Distinct

namespace Entries

theorem keys_put (key : String) (item : Item) (es : Entries) :
    Toml.keys (es.put key item) =
      if key ∈ Toml.keys es then Toml.keys es else Toml.keys es ++ [key] := by
  induction es with
  | nil => rfl
  | cons e es ih =>
    have hcons : Toml.keys (e :: es) = e.1 :: Toml.keys es := rfl
    rw [put, hcons]
    split
    · rename_i heq
      rw [if_pos (heq ▸ List.mem_cons_self)]
      rfl
    · rename_i hne
      change e.1 :: Toml.keys (put key item es) = _
      rw [ih]
      by_cases hmem : key ∈ Toml.keys es
      · rw [if_pos hmem, if_pos (List.mem_cons_of_mem _ hmem)]
      · rw [if_neg hmem, if_neg (by simp [hmem, Ne.symm hne])]
        rfl

theorem nodup_put {key : String} {item : Item} {es : Entries} (h : (Toml.keys es).Nodup) :
    (Toml.keys (es.put key item)).Nodup := by
  rw [keys_put]
  split
  · exact h
  · rename_i hmem
    exact List.nodup_append.mpr ⟨h, List.nodup_singleton _, by
      rintro _ ha _ hb rfl
      exact hmem (List.mem_singleton.mp hb ▸ ha)⟩

theorem mem_put {key : String} {item : Item} {es : Entries} {e : String × Item}
    (h : e ∈ es.put key item) : e ∈ es ∨ e.2 = item := by
  induction es with
  | nil => exact .inr (by rw [List.mem_singleton.mp h])
  | cons d es ih =>
    rw [put] at h
    split at h
    · rcases List.mem_cons.mp h with rfl | h
      · exact .inr rfl
      · exact .inl (List.mem_cons_of_mem _ h)
    · rcases List.mem_cons.mp h with rfl | h
      · exact .inl List.mem_cons_self
      · exact (ih h).imp_left (List.mem_cons_of_mem _)

theorem Distinct.put {es : Entries} (h : es.Distinct) (key : String) {item : Item}
    (hitem : item.Distinct) : (es.put key item).Distinct where
  keys := nodup_put h.keys
  items e he := (mem_put he).elim (h.items e) (fun heq => heq ▸ hitem)

theorem Distinct.lookup {es : Entries} (h : es.Distinct) {key : String} {item : Item}
    (hfound : es.lookup key = some item) : item.Distinct := by
  obtain ⟨before, after, rfl, -⟩ := List.lookup_eq_some_iff.mp hfound
  exact h.items (key, item) (by simp)

/-- Setting a key with points puts one item into the table. -/
theorem setKey_put {key : String} {v : Value} {path : List String} {origin : Origin}
    {es es' : Entries} (h : setKey key v origin path es = some es') :
    ∃ k item, es' = es.put k item ∧ (v.Distinct → es.Distinct → item.Distinct) := by
  induction path generalizing origin es es' with
  | nil =>
    rw [setKey] at h
    split at h
    · cases h
    · split at h
      · cases h
      · exact ⟨key, .value v, (Option.some.inj h).symm, fun hv _ => hv⟩
  | cons p path ih =>
    rw [setKey] at h
    split at h
    · obtain ⟨inner, hinner, ⟨⟩⟩ := Option.bind_eq_some_iff.mp h
      obtain ⟨k, item, rfl, -⟩ := ih hinner
      exact ⟨p, _, rfl, fun _ _ => nodup_put List.nodup_nil⟩
    · rename_i inner hfound
      split at h
      · cases h
      · obtain ⟨inner', hinner, ⟨⟩⟩ := Option.bind_eq_some_iff.mp h
        obtain ⟨k, item, rfl, -⟩ := ih hinner
        exact ⟨p, _, rfl, fun _ hes => nodup_put (hes.lookup hfound)⟩
    · split at h
      · cases h
      · obtain ⟨elements, -, ⟨⟩⟩ := Option.bind_eq_some_iff.mp h
        exact ⟨p, _, rfl, fun _ _ => trivial⟩
    · cases h

/-- A header changes one item of the document. -/
theorem changeAt_put {key : String} {f : Option Item → Option Item}
    (hf : ∀ {found item}, (∀ i ∈ found, i.Distinct) → f found = some item → item.Distinct)
    {path : List String} {es es' : Entries} (h : changeAt key f path es = some es') :
    ∃ k item, es' = es.put k item ∧ (es.Distinct → item.Distinct) := by
  induction path generalizing es es' with
  | nil =>
    rw [changeAt] at h
    obtain ⟨item, hitem, ⟨⟩⟩ := Option.bind_eq_some_iff.mp h
    exact ⟨key, item, rfl, fun hes => hf (fun i hi => hes.lookup hi) hitem⟩
  | cons p path ih =>
    rw [changeAt] at h
    split at h
    · obtain ⟨inner, hinner, ⟨⟩⟩ := Option.bind_eq_some_iff.mp h
      obtain ⟨k, item, rfl, -⟩ := ih hinner
      exact ⟨p, _, rfl, fun _ => nodup_put List.nodup_nil⟩
    · rename_i hfound
      obtain ⟨inner', hinner, ⟨⟩⟩ := Option.bind_eq_some_iff.mp h
      obtain ⟨k, item, rfl, -⟩ := ih hinner
      exact ⟨p, _, rfl, fun hes => nodup_put (hes.lookup hfound)⟩
    · obtain ⟨elements, -, ⟨⟩⟩ := Option.bind_eq_some_iff.mp h
      exact ⟨p, _, rfl, fun _ => trivial⟩
    · cases h

end Entries

/-! ## Bodies -/

theorem nodup_fill {as : List Assignment} {es es' : Entries} (h : fill es as = some es')
    (hes : (keys es).Nodup) : (keys es').Nodup := by
  induction as generalizing es with
  | nil =>
    obtain rfl := Option.some.inj h
    exact hes
  | cons a as ih =>
    obtain ⟨es₁, hset, hfill⟩ := Option.bind_eq_some_iff.mp h
    obtain ⟨k, item, rfl, -⟩ := Entries.setKey_put hset
    exact ih hfill (Entries.nodup_put hes)

theorem distinct_fill {as : List Assignment} {es es' : Entries} (h : fill es as = some es')
    (has : ∀ a ∈ as, a.value.Distinct) (hes : es.Distinct) : es'.Distinct := by
  induction as generalizing es with
  | nil =>
    obtain rfl := Option.some.inj h
    exact hes
  | cons a as ih =>
    obtain ⟨es₁, hset, hfill⟩ := Option.bind_eq_some_iff.mp h
    obtain ⟨k, item, rfl, hitem⟩ := Entries.setKey_put hset
    obtain ⟨ha, has⟩ := List.forall_mem_cons.mp has
    exact ih hfill has (hes.put k (hitem ha hes))

theorem keys_entriesToValues (es : Entries) : keys (entriesToValues es) = keys es := by
  rw [entriesToValues_eq, keys, keys, List.map_map]
  rfl

theorem Item.Distinct.toValue {item : Item} (h : item.Distinct) : item.toValue.Distinct := by
  cases item with
  | value v => exact h
  | table origin es =>
    change (keys (entriesToValues es)).Nodup
    rw [keys_entriesToValues]
    exact h
  | tables elements => trivial

/-! ## Values -/

section Values

variable {v : Value} {cs rest : List Char}

theorem distinct_integer? {n : Int} (h : integer? n = some v) : v.Distinct := by
  unfold integer? at h
  split at h
  · cases h
    trivial
  · cases h

theorem distinct_finite? {d : Decimal} (h : finite? d = some v) : v.Distinct := by
  unfold finite? at h
  simp only at h
  split at h
  · cases h
  · cases h
    trivial

theorem distinct_readBased {base : Nat} (h : readBased base cs = some (v, rest)) : v.Distinct := by
  obtain ⟨⟨ds, after⟩, -, h⟩ := Option.bind_eq_some_iff.mp h
  obtain ⟨w, hw, ⟨⟩⟩ := Option.bind_eq_some_iff.mp h
  exact distinct_integer? hw

theorem distinct_readDecimal {negative : Bool} (h : readDecimal negative cs = some (v, rest)) :
    v.Distinct := by
  have hlast : ∀ {whole : Prop} [Decidable whole] {n : Int} {d : Decimal} {after : List Char},
      (if whole then (integer? n).bind fun v => pure (v, after)
        else (finite? d).bind fun v => pure (v, after)) = some (v, rest) → v.Distinct := by
    intro whole _ n d after h
    split at h
    · obtain ⟨w, hw, ⟨⟩⟩ := Option.bind_eq_some_iff.mp h
      exact distinct_integer? hw
    · obtain ⟨w, hw, ⟨⟩⟩ := Option.bind_eq_some_iff.mp h
      exact distinct_finite? hw
  simp only [readDecimal, Option.bind_eq_bind, Option.bind_eq_some_iff] at h
  obtain ⟨whole, -, h⟩ := h
  split at h
  · obtain ⟨digits, -, h⟩ := Option.bind_eq_some_iff.mp h
    obtain ⟨fraction, -, h⟩ := Option.bind_eq_some_iff.mp h
    obtain ⟨exponent, -, h⟩ := Option.bind_eq_some_iff.mp h
    exact hlast h
  · obtain ⟨fraction, -, h⟩ := Option.bind_eq_some_iff.mp h
    obtain ⟨exponent, -, h⟩ := Option.bind_eq_some_iff.mp h
    exact hlast h

theorem distinct_readSigned {negative : Bool} (h : readSigned negative cs = some (v, rest)) :
    v.Distinct := by
  unfold readSigned at h
  split at h
  · cases h
    trivial
  · cases h
    trivial
  · exact distinct_readDecimal h

theorem distinct_readNumber (h : readNumber cs = some (v, rest)) : v.Distinct := by
  unfold readNumber at h
  split at h
  · obtain ⟨after, -, ⟨⟩⟩ := Option.bind_eq_some_iff.mp h
    trivial
  · split at h
    · obtain ⟨after, -, ⟨⟩⟩ := Option.bind_eq_some_iff.mp h
      trivial
    · split at h
      · exact distinct_readBased h
      · exact distinct_readBased h
      · exact distinct_readBased h
      · exact distinct_readSigned h
      · exact distinct_readSigned h
      · exact distinct_readSigned h

theorem distinct_readValue {fuel depth : Nat} (h : readValue fuel depth cs = some (v, rest)) :
    v.Distinct := by
  unfold readValue at h
  split at h
  · cases h
  · split at h
    · obtain ⟨text, -, ⟨⟩⟩ := Option.map_eq_some_iff.mp h
      trivial
    · obtain ⟨text, -, ⟨⟩⟩ := Option.map_eq_some_iff.mp h
      trivial
    · cases h
      trivial
    · cases h
      trivial
    · split at h
      · cases h
      · obtain ⟨items, -, ⟨⟩⟩ := Option.map_eq_some_iff.mp h
        trivial
    · split at h
      · cases h
      · split at h
        · cases h
          exact List.nodup_nil
        · obtain ⟨⟨assignments, after⟩, -, h⟩ := Option.bind_eq_some_iff.mp h
          obtain ⟨es, hes, ⟨⟩⟩ := Option.bind_eq_some_iff.mp h
          change (keys (entriesToValues es)).Nodup
          rw [keys_entriesToValues]
          exact nodup_fill hes List.nodup_nil
    · exact distinct_readNumber h

end Values

/-! ## Lines and sections -/

/-- The value that a line assigns, if it does, has no key twice. -/
def Line.Distinct : Line → Prop
  | .assign a => a.value.Distinct
  | _ => True

theorem distinct_readLine {fuel : Nat} {cs rest : List Char} {line : Line}
    (h : readLine fuel cs = some (some line, rest)) : line.Distinct := by
  unfold readLine at h
  split at h
  · cases h
  · obtain ⟨key, -, h⟩ := Option.bind_eq_some_iff.mp h
    obtain ⟨inner, -, h⟩ := Option.bind_eq_some_iff.mp h
    obtain ⟨outer, -, h⟩ := Option.bind_eq_some_iff.mp h
    obtain ⟨after, -, ⟨⟩⟩ := Option.bind_eq_some_iff.mp h
    trivial
  · obtain ⟨key, -, h⟩ := Option.bind_eq_some_iff.mp h
    obtain ⟨outer, -, h⟩ := Option.bind_eq_some_iff.mp h
    obtain ⟨after, -, ⟨⟩⟩ := Option.bind_eq_some_iff.mp h
    trivial
  · split at h
    · obtain ⟨after, -, ⟨⟩⟩ := Option.bind_eq_some_iff.mp h
    · obtain ⟨key, -, h⟩ := Option.bind_eq_some_iff.mp h
      obtain ⟨after, -, h⟩ := Option.bind_eq_some_iff.mp h
      obtain ⟨value, hvalue, h⟩ := Option.bind_eq_some_iff.mp h
      obtain ⟨after, -, ⟨⟩⟩ := Option.bind_eq_some_iff.mp h
      exact distinct_readValue hvalue

theorem distinct_readLines {fuel : Nat} {cs : List Char} {lines : List Line}
    (h : readLines fuel cs = some lines) : ∀ line ∈ lines, line.Distinct := by
  induction fuel generalizing cs lines with
  | zero =>
    cases cs with
    | nil =>
      cases h
      exact List.forall_mem_nil _
    | cons c cs => cases h
  | succ fuel ih =>
    by_cases hne : cs = []
    · subst hne
      rw [readLines] at h
      cases h
      exact List.forall_mem_nil _
    · rw [readLines_succ fuel hne] at h
      obtain ⟨⟨line, after⟩, hline, h⟩ := Option.bind_eq_some_iff.mp h
      obtain ⟨lines, hlines, rfl⟩ := Option.map_eq_some_iff.mp h
      refine List.forall_mem_append.mpr ⟨fun l hl => ?_, ih hlines⟩
      obtain rfl : line = some l := Option.mem_toList.mp hl
      exact distinct_readLine hline

theorem distinct_splitSection {lines : List Line} (h : ∀ line ∈ lines, line.Distinct) :
    (∀ a ∈ (splitSection lines).1, a.value.Distinct) ∧
      ∀ line ∈ (splitSection lines).2, line.Distinct := by
  fun_induction splitSection lines with
  | case1 a rest assignments after hsplit ih =>
    obtain ⟨ha, hrest⟩ := List.forall_mem_cons.mp h
    rw [hsplit] at ih
    obtain ⟨hbody, hafter⟩ := ih hrest
    exact ⟨List.forall_mem_cons.mpr ⟨ha, hbody⟩, hafter⟩
  | case2 lines => exact ⟨List.forall_mem_nil _, h⟩

theorem distinct_openTable {body : List Assignment} {found : Option Item} {item : Item}
    (hfound : ∀ i ∈ found, i.Distinct) (h : openTable body found = some item) : item.Distinct := by
  unfold openTable at h
  split at h
  · obtain ⟨es, hes, ⟨⟩⟩ := Option.bind_eq_some_iff.mp h
    exact nodup_fill hes List.nodup_nil
  · obtain ⟨es, hes, ⟨⟩⟩ := Option.bind_eq_some_iff.mp h
    exact nodup_fill hes (hfound _ rfl)
  · cases h

theorem distinct_openElement {body : List Assignment} {found : Option Item} {item : Item}
    (h : openElement body found = some item) : item.Distinct := by
  unfold openElement at h
  split at h
  · obtain ⟨es, -, ⟨⟩⟩ := Option.bind_eq_some_iff.mp h
    trivial
  · obtain ⟨es, -, ⟨⟩⟩ := Option.bind_eq_some_iff.mp h
    trivial
  · cases h

theorem distinct_addSections {fuel : Nat} {es es' : Entries} {lines : List Line}
    (h : addSections fuel es lines = some es') (hes : es.Distinct) : es'.Distinct := by
  induction fuel generalizing es lines with
  | zero =>
    cases lines with
    | nil =>
      cases h
      exact hes
    | cons line lines => cases h
  | succ fuel ih =>
    cases lines with
    | nil =>
      cases h
      exact hes
    | cons line lines =>
      rw [addSections] at h
      simp only at h
      split at h
      · obtain ⟨es₁, hchange, h⟩ := Option.bind_eq_some_iff.mp h
        obtain ⟨k, item, rfl, hitem⟩ := Entries.changeAt_put distinct_openTable hchange
        exact ih h (hes.put k (hitem hes))
      · obtain ⟨es₁, hchange, h⟩ := Option.bind_eq_some_iff.mp h
        obtain ⟨k, item, rfl, hitem⟩ := Entries.changeAt_put (fun _ => distinct_openElement) hchange
        exact ih h (hes.put k (hitem hes))
      · cases h

/-- A document has no key twice, and no table of it has. -/
theorem parse?_distinct {cs : List Char} {doc : List (String × Value)} (h : parse? cs = some doc) :
    (keys doc).Nodup ∧ ∀ {key v}, doc.lookup key = some v → v.Distinct := by
  obtain ⟨lines, hlines, h⟩ := Option.bind_eq_some_iff.mp h
  obtain ⟨top, htop, h⟩ := Option.bind_eq_some_iff.mp h
  obtain ⟨es, hes, ⟨⟩⟩ := Option.bind_eq_some_iff.mp h
  have hbody := (distinct_splitSection (distinct_readLines hlines)).1
  have hdistinct := distinct_addSections hes (distinct_fill htop hbody ⟨List.nodup_nil, by simp⟩)
  rw [keys_entriesToValues]
  refine ⟨hdistinct.keys, fun {key v} hv => ?_⟩
  obtain ⟨before, after, hsplit, -⟩ := List.lookup_eq_some_iff.mp hv
  have hmem : (key, v) ∈ entriesToValues es := by simp [hsplit]
  rw [entriesToValues_eq] at hmem
  obtain ⟨e, he, heq⟩ := List.mem_map.mp hmem
  obtain ⟨-, rfl⟩ := Prod.mk.inj heq
  exact (hdistinct.items e he).toValue

end TracePlayback.Toml
