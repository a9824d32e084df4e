import TracePlayback.Proofs.Json.Buffer

/-!
# Members in any order

A record is read member by member, and every field keeps its value in a place of its own (`Slot`).
What a slot holds in the end is then a matter of the members under its names (`Doc.under`) and of no
others: there is none, and the slot is empty, or there is one, and the slot holds its value
(`Slot.readMembers_ok`). Two of them are never read, whichever names they have.

* `Record.readMembers_isOk`: reading does not fail if every slot has at most one member, which can be
  read, and all others can be skipped.
* `Record.read_object`: an object is then read as the record that the slots finish as.
* `Slot.value_of_read`: what has been read has one member at most for every slot, and it could be
  read.
-/
namespace TracePlayback.Json

namespace Doc

/-- Whether a key is one of the names. -/
def isNamed (names : List String) : Doc → Bool
  | .quoted (.text s) => names.contains s
  | _ => false

/-- The documents of the members that have one of the names, in order. -/
def under (names : List String) (members : List (Doc × Doc)) : List Doc :=
  (members.filter fun m => m.1.isNamed names).map (·.2)

/-- What the members say under some names: there is one of them, and its document is as `fits` asks,
or there is none, if the value may be left out. -/
inductive Tells (names : List String) (members : List (Doc × Doc)) (optional : Prop)
    (fits : Doc → Prop) : Prop
  | absent (h : under names members = []) (hopt : optional)
  | present {d : Doc} (h : under names members = [d]) (hd : fits d)

/-- An object that has two members for one of the groups of names. -/
def Repeats (groups : List (List String)) : Doc → Prop
  | .object members _ => ∃ names ∈ groups, 2 ≤ (under names members).length
  | _ => False

theorem under_cons_of_mem {names : List String} {s : String} (h : s ∈ names) (d : Doc)
    (members : List (Doc × Doc)) : under names ((.ofString s, d) :: members) =
      d :: under names members := by
  have hnamed : (ofString s).isNamed names = true := List.contains_iff_mem.mpr h
  rw [under, List.filter_cons, if_pos hnamed, List.map_cons]; rfl

theorem under_cons_of_not_mem {names : List String} {s : String} (h : s ∉ names) (d : Doc)
    (members : List (Doc × Doc)) : under names ((.ofString s, d) :: members) =
      under names members := by
  have hnamed : ¬ (ofString s).isNamed names = true := fun hs => h (List.contains_iff_mem.mp hs)
  rw [under, List.filter_cons, if_neg hnamed]; rfl

theorem readKey_ok {k : Doc} {s : String} (h : k.readKey = .ok s) : k = .ofString s := by
  unfold readKey at h
  split at h <;> cases h
  rfl

end Doc

open Doc

def Field.names {σ : Type} (f : Field σ) : List String := f.name :: f.aliases

theorem Field.answers_iff {σ : Type} (f : Field σ) (s : String) :
    f.answers s = true ↔ s ∈ f.names := by
  rw [answers, names, List.mem_cons, Bool.or_eq_true, beq_iff_eq, List.contains_iff_mem, eq_comm]

variable {σ α β : Type}

/-- No two fields of the record have a name in common. -/
def Record.Apart (rec : Record σ α) : Prop :=
  rec.fields.Pairwise fun f g => ∀ s ∈ f.names, s ∉ g.names

/-- A field with the place where the record keeps its value. -/
structure Slot (rec : Record σ α) (β : Type) where
  field : Field σ
  get : σ → Option β
  put : β → σ → σ
  /-- Reads the value alone. -/
  value : Reading → Doc → Result β
  mem : field ∈ rec.fields := by simp
  given : ∀ s, field.given s = (get s).isSome := by intros; rfl
  read : ∀ r d s, field.read r d s = (do return put (← value r d) s) := by intros; rfl
  get_put : ∀ b s, get (put b s) = some b := by intros; rfl
  get_empty : get rec.empty = none := by rfl
  /-- The other fields leave the place alone. -/
  keeps : ∀ f ∈ rec.fields, f.names = field.names ∨
    ∀ r d s s', f.read r d s = .ok s' → get s' = get s

/-- A reader that puts its value elsewhere leaves a place alone. -/
theorem keeps_of_put {γ : Type} {value : Result γ} {put : γ → σ} {get : σ → Option β}
    {b : Option β} {s' : σ} (hread : (do return put (← value)) = .ok s')
    (h : ∀ c, get (put c) = b) : get s' = b := by
  obtain ⟨c, -, hs⟩ := bind_eq_ok.mp hread
  cases hs
  exact h c

/-! ## One member -/

theorem find?_field {fields : List (Field σ)}
    (hapart : fields.Pairwise fun f g => ∀ s ∈ f.names, s ∉ g.names) {f : Field σ}
    (hf : f ∈ fields) {s : String} (hs : s ∈ f.names) : fields.find? (·.answers s) = some f := by
  induction fields with
  | nil => cases hf
  | cons g fields ih =>
    obtain ⟨hg, hfields⟩ := List.pairwise_cons.mp hapart
    rcases List.mem_cons.mp hf with rfl | hf
    · simp only [List.find?_cons, (f.answers_iff s).mpr hs]
    · have hother : g.answers s = false :=
        Bool.eq_false_iff.mpr fun h => hg f hf s ((g.answers_iff s).mp h) hs
      simp only [List.find?_cons, hother, ih hfields hf]

/-- What one member does to a slot: under its names there is nothing yet, and the member's value is
put there; under another name the slot stays as it is. -/
theorem Slot.readMember_ok {rec : Record σ α} (a : Slot rec β) (hapart : rec.Apart) {r : Reading}
    {s s' : σ} {name : String} {d : Doc} (h : rec.readMember r s name d = .ok s') :
    (name ∈ a.field.names → a.get s = none ∧ ∃ b, a.value r d = .ok b ∧ a.get s' = some b) ∧
    (name ∉ a.field.names → a.get s' = a.get s) := by
  unfold Record.readMember at h
  constructor
  · intro hname
    rw [find?_field hapart a.mem hname] at h
    simp only [a.given, a.read] at h
    split at h
    · cases h
    · rename_i hnone
      obtain ⟨b, hb, hs⟩ := bind_eq_ok.mp h
      cases hs
      exact ⟨by simpa using hnone, b, hb, a.get_put b s⟩
  · intro hname
    split at h
    · obtain ⟨-, -, hs⟩ := bind_eq_ok.mp h
      cases hs
      rfl
    · rename_i f hfind
      have hanswers := List.find?_some hfind
      split at h
      · cases h
      · rcases a.keeps f (List.mem_of_find?_eq_some hfind) with hsame | hkeeps
        · exact absurd (hsame ▸ (f.answers_iff name).mp hanswers) hname
        · exact hkeeps r d s s' h

/-! ## All members -/

theorem Record.readMembers_cons_ok {rec : Record σ α} {r : Reading} {s s' : σ} {k v : Doc}
    {members : List (Doc × Doc)} :
    rec.readMembers r s ((k, v) :: members) = .ok s' ↔ ∃ name s₁, k = .ofString name ∧
      rec.readMember r s name v = .ok s₁ ∧ rec.readMembers r s₁ members = .ok s' := by
  simp only [readMembers, bind_eq_ok]
  constructor
  · rintro ⟨name, hname, s₁, hmember, hrest⟩
    exact ⟨name, s₁, readKey_ok hname, hmember, hrest⟩
  · rintro ⟨name, s₁, rfl, hmember, hrest⟩
    exact ⟨name, rfl, s₁, hmember, hrest⟩

/-- What all members do to a slot. By induction on the members: after the one under its names the
slot is taken, and no other is let in. -/
theorem Slot.readMembers_ok {rec : Record σ α} (a : Slot rec β) (hapart : rec.Apart) {r : Reading}
    {s s' : σ} {members : List (Doc × Doc)} (h : rec.readMembers r s members = .ok s') :
    under a.field.names members = [] ∧ a.get s' = a.get s ∨
    ∃ d b, under a.field.names members = [d] ∧ a.get s = none ∧ a.value r d = .ok b ∧
      a.get s' = some b := by
  induction members generalizing s with
  | nil => cases h; exact .inl ⟨rfl, rfl⟩
  | cons m members ih =>
    obtain ⟨name, s₁, hk, hmember, hrest⟩ := Record.readMembers_cons_ok.mp h
    obtain ⟨k, v⟩ := m
    obtain rfl : k = .ofString name := hk
    obtain ⟨hown, hother⟩ := a.readMember_ok hapart hmember
    by_cases hname : name ∈ a.field.names
    · obtain ⟨hnone, b, hb, hsome⟩ := hown hname
      rw [under_cons_of_mem hname]
      rcases ih hrest with ⟨hnil, hget⟩ | ⟨-, -, -, htaken, -⟩
      · exact .inr ⟨v, b, by rw [hnil], hnone, hb, by rw [hget, hsome]⟩
      · rw [hsome] at htaken; cases htaken
    · rw [under_cons_of_not_mem hname, ← hother hname]
      exact ih hrest

/-- What the members say about a slot: there is none under its names, if the value may be left out,
or there is one that reads as the value. -/
def Slot.Told {rec : Record σ α} (a : Slot rec β) (r : Reading) (members : List (Doc × Doc))
    (b : β) (optional : Prop) : Prop :=
  under a.field.names members = [] ∧ optional ∨
    ∃ d, under a.field.names members = [d] ∧ a.value r d = .ok b

/-- A slot that has been told its value holds it in the end, or has been left out. -/
theorem Slot.Told.get {rec : Record σ α} {a : Slot rec β} {r : Reading}
    {members : List (Doc × Doc)} {b : β} {optional : Prop} (h : a.Told r members b optional)
    (hapart : rec.Apart) {s : σ} (hread : rec.readMembers r rec.empty members = .ok s) :
    a.get s = none ∧ optional ∨ a.get s = some b := by
  rcases a.readMembers_ok hapart hread with ⟨hnil, hget⟩ | ⟨d, b', hone, -, hb', hget⟩
  · rcases h with ⟨-, hopt⟩ | ⟨d, hd, -⟩
    · exact .inl ⟨by rw [hget, a.get_empty], hopt⟩
    · rw [hnil] at hd; cases hd
  · rcases h with ⟨hnil, -⟩ | ⟨d', hd', hb⟩
    · rw [hone] at hnil; cases hnil
    · rw [hone] at hd'; cases hd'
      rw [hb] at hb'; cases hb'
      exact .inr hget

theorem Slot.Told.get_eq {rec : Record σ α} {a : Slot rec β} {r : Reading}
    {members : List (Doc × Doc)} {b : β} (h : a.Told r members b False) (hapart : rec.Apart) {s : σ}
    (hread : rec.readMembers r rec.empty members = .ok s) : a.get s = some b :=
  (h.get hapart hread).resolve_left fun hnone => hnone.2

/-- A slot that may be left out where its value is the default holds the value or counts as it. -/
theorem Slot.Told.getD_eq {rec : Record σ α} {a : Slot rec β} {r : Reading}
    {members : List (Doc × Doc)} {b default : β} (h : a.Told r members b (b = default))
    (hapart : rec.Apart) {s : σ} (hread : rec.readMembers r rec.empty members = .ok s) :
    (a.get s).getD default = b := by
  rcases h.get hapart hread with ⟨hnone, rfl⟩ | hsome
  · rw [hnone]; rfl
  · rw [hsome]; rfl

/-- A member of the field can still be let in, if there is one. -/
def Field.Open (f : Field σ) (r : Reading) (members : List (Doc × Doc)) (s : σ) : Prop :=
  under f.names members = [] ∨
    ∃ d s', under f.names members = [d] ∧ f.given s = false ∧ f.read r d s = .ok s'

/-- Every field has a slot. -/
def Record.Slotted (rec : Record σ α) : Prop :=
  ∀ f ∈ rec.fields, ∃ (β : Type) (a : Slot rec β), a.field = f

/-- Reading does not fail if every field has at most one member, which can be read, and all others
can be skipped. By induction on the members: a member of one field leaves the others open. -/
theorem Record.readMembers_isOk {rec : Record σ α} (hapart : rec.Apart) (hslots : rec.Slotted)
    {r : Reading} {members : List (String × Doc)} {s : σ}
    (hskip : ∀ m ∈ members, (∀ f ∈ rec.fields, m.1 ∉ f.names) → m.2.skip = .ok ())
    (hopen : ∀ f ∈ rec.fields, f.Open r (keyed members) s) :
    ∃ s', rec.readMembers r s (keyed members) = .ok s' := by
  induction members generalizing s with
  | nil => exact ⟨s, rfl⟩
  | cons m members ih =>
    obtain ⟨name, d⟩ := m
    obtain ⟨hd, hmembers⟩ := List.forall_mem_cons.mp hskip
    change ∀ f ∈ rec.fields, f.Open r ((.ofString name, d) :: keyed members) s at hopen
    suffices hstep : ∃ s₁, rec.readMember r s name d = .ok s₁ ∧
        ∀ f ∈ rec.fields, f.Open r (keyed members) s₁ by
      obtain ⟨s₁, hmember, hrest⟩ := hstep
      obtain ⟨s', hs'⟩ := ih hmembers hrest
      exact ⟨s', readMembers_cons_ok.mpr ⟨name, s₁, rfl, hmember, hs'⟩⟩
    by_cases hknown : ∃ f ∈ rec.fields, name ∈ f.names
    · obtain ⟨f, hf, hname⟩ := hknown
      have hfind := find?_field hapart hf hname
      obtain ⟨d', s₁, hone, hfresh, hread⟩ : ∃ d' s₁, d :: under f.names (keyed members) = [d'] ∧
          f.given s = false ∧ f.read r d' s = .ok s₁ := by
        rcases hopen f hf with hnil | hone
        · rw [under_cons_of_mem hname] at hnil; cases hnil
        · rwa [under_cons_of_mem hname] at hone
      obtain ⟨rfl, hnil⟩ := List.cons.inj hone
      refine ⟨s₁, by simp only [readMember, hfind, hfresh]; exact hread, fun g hg => ?_⟩
      by_cases hsame : name ∈ g.names
      · -- This is the same field, and its only member has been read.
        have hgf := hfind.symm.trans (find?_field hapart hg hsame)
        cases hgf
        exact .inl hnil
      · have hgopen := hopen g hg
        rw [Field.Open, under_cons_of_not_mem hsame] at hgopen
        rcases hgopen with hgnil | ⟨e, s₂, hgone, hgfresh, hgread⟩
        · exact .inl hgnil
        · obtain ⟨β, a, rfl⟩ := hslots g hg
          have hkept : a.get s₁ = a.get s := by
            rcases a.keeps f hf with hnames | hkeeps
            · exact absurd (hnames ▸ hname) hsame
            · exact hkeeps r d s s₁ hread
          rw [a.read] at hgread
          obtain ⟨b, hb, -⟩ := bind_eq_ok.mp hgread
          refine .inr ⟨e, a.put b s₁, hgone, ?_, by rw [a.read, hb]; rfl⟩
          rw [a.given, hkept, ← a.given, hgfresh]
    · have hother : ∀ f ∈ rec.fields, name ∉ f.names := fun f hf hname => hknown ⟨f, hf, hname⟩
      have hfind : rec.fields.find? (·.answers name) = none := by
        refine List.find?_eq_none.mpr fun f hf hanswers => ?_
        exact hother f hf ((f.answers_iff name).mp hanswers)
      refine ⟨s, by simp only [readMember, hfind, hd hother]; rfl, fun f hf => ?_⟩
      have hfopen := hopen f hf
      rwa [Field.Open, under_cons_of_not_mem (hother f hf)] at hfopen

/-! ## Objects -/

/-- A slot that is told its value leaves its field open. -/
theorem Slot.Told.fieldOpen {rec : Record σ α} {a : Slot rec β} {r : Reading}
    {members : List (Doc × Doc)} {b : β} {optional : Prop} (h : a.Told r members b optional) :
    a.field.Open r members rec.empty := by
  rcases h with ⟨hnil, -⟩ | ⟨d, hd, hb⟩
  · exact .inl hnil
  · refine .inr ⟨d, a.put b rec.empty, hd, ?_, by rw [a.read, hb]; rfl⟩
    rw [a.given, a.get_empty]; rfl

/-- A whole object is read as the record that its members make, in whatever order they stand. -/
theorem Record.read_object {rec : Record σ α} (hapart : rec.Apart) (hslots : rec.Slotted)
    {r r' : Reading} (henter : r.enter = .ok r') {members : List (String × Doc)} {x : α}
    (hwhole : (ofMembers members).Whole)
    (hopen : ∀ f ∈ rec.fields, f.Open r' (keyed members) rec.empty)
    (hfinish : ∀ s, rec.readMembers r' rec.empty (keyed members) = .ok s → rec.finish s = .ok x) :
    rec.read r (.ofMembers members) = .ok x := by
  have hskip : ∀ m ∈ members, (∀ f ∈ rec.fields, m.1 ∉ f.names) → m.2.skip = .ok () :=
    fun m hm _ => (hwhole.of_object _ (List.mem_map_of_mem hm)).skip_ok
  obtain ⟨s, hs⟩ := readMembers_isOk hapart hslots hskip hopen
  have hfinish := hfinish s hs
  rw [keyed] at hs
  rw [ofMembers, read, readObject, henter, ok_bind, hs, ok_bind, hfinish]
  rfl

/-- The members of an object that has been read: under the names of a slot there is one at most, and
its value could be read. -/
theorem Slot.value_of_read {rec : Record σ α} (a : Slot rec β) (hapart : rec.Apart) {r : Reading}
    {members : List (Doc × Doc)} {ending : Ending} {x : α}
    (h : rec.read r (.object members ending) = .ok x) :
    under a.field.names members = [] ∨
      ∃ d r' b, under a.field.names members = [d] ∧ a.value r' d = .ok b := by
  rw [Record.read, Record.readObject] at h
  obtain ⟨r', -, h⟩ := bind_eq_ok.mp h
  obtain ⟨s, hs, -⟩ := bind_eq_ok.mp h
  rcases a.readMembers_ok hapart hs with ⟨hnil, -⟩ | ⟨d, b, hone, -, hb, -⟩
  · exact .inl hnil
  · exact .inr ⟨d, r', b, hone, hb⟩

theorem Slot.member_of_read {rec : Record σ α} (a : Slot rec β) (hapart : rec.Apart) {r : Reading}
    {members : List (Doc × Doc)} {ending : Ending} {x : α}
    (h : rec.read r (.object members ending) = .ok x) {d : Doc}
    (hd : d ∈ under a.field.names members) : ∃ r' b, a.value r' d = .ok b := by
  rcases a.value_of_read hapart h with hnil | ⟨d', r', b, hone, hb⟩
  · rw [hnil] at hd; cases hd
  · rw [hone] at hd
    exact ⟨r', b, List.mem_singleton.mp hd ▸ hb⟩

theorem unexpected_ne_ok (expected : String) (d : Doc) (b : β) :
    d.unexpected expected ≠ .ok b := by
  intro h
  obtain ⟨found, -, h⟩ := bind_eq_ok.mp h
  cases h

/-- Only an object or a list is read as a record. -/
theorem Record.container_of_read {rec : Record σ α} {r : Reading} {d : Doc} {x : α}
    (h : rec.read r d = .ok x) :
    (∃ members ending, d = .object members ending) ∨ ∃ items ending, d = .list items ending := by
  cases d with
  | object members ending => exact .inl ⟨members, ending, rfl⟩
  | list items ending => exact .inr ⟨items, ending, rfl⟩
  | _ => exact absurd h (unexpected_ne_ok _ _ _)

theorem eq_of_readOption_readText {d : Doc} {o : Option String}
    (h : readOption readText d = .ok o) : d = .null ∨ ∃ s, d = .ofString s := by
  rw [readOption.eq_def] at h
  split at h
  · exact .inl rfl
  · obtain ⟨s, hs, -⟩ := bind_eq_ok.mp h
    rw [readText.eq_def] at hs
    split at hs
    · exact .inr ⟨_, rfl⟩
    · exact absurd hs (unexpected_ne_ok _ _ _)

/-- An object that repeats a field is not read. -/
theorem Record.not_repeats_of_read {rec : Record σ α} (hapart : rec.Apart) (hslots : rec.Slotted)
    {r : Reading} {d : Doc} {x : α} (h : rec.read r d = .ok x) :
    ¬ d.Repeats (rec.fields.map Field.names) := by
  intro hrepeats
  cases d with
  | object members ending =>
    obtain ⟨names, hnames, htwo⟩ := hrepeats
    obtain ⟨f, hf, rfl⟩ := List.mem_map.mp hnames
    obtain ⟨β, a, rfl⟩ := hslots f hf
    rcases a.value_of_read hapart h with hnil | ⟨d, -, -, hone, -⟩
    · rw [hnil] at htwo; simp at htwo
    · rw [hone] at htwo; simp at htwo
  | _ => exact hrepeats

/-- What the members tell a slot, if what they say is read as the value. -/
theorem Slot.told {rec : Record σ α} (a : Slot rec β) {r : Reading} {members : List (Doc × Doc)}
    {b : β} {optional : Prop} {fits : Doc → Prop}
    (h : Tells a.field.names members optional fits)
    (hvalue : ∀ d ∈ under a.field.names members, fits d → a.value r d = .ok b) :
    a.Told r members b optional := by
  cases h with
  | absent h hopt => exact .inl ⟨h, hopt⟩
  | present h hd => exact .inr ⟨_, h, hvalue _ (h ▸ List.mem_singleton_self _) hd⟩

theorem Whole.of_under {members : List (Doc × Doc)} {ending : Ending}
    (h : Whole (.object members ending)) {names : List String} {d : Doc}
    (hd : d ∈ under names members) : d.Whole := by
  obtain ⟨m, hm, rfl⟩ := List.mem_map.mp hd
  exact h.of_object m (List.mem_of_mem_filter hm)

/-! ## Lists -/

theorem readList_ok {Spelled : α → Doc → Prop} {read : Reading → Doc → Result α} {n : Nat}
    (hread : ∀ {x d}, Spelled x d → d.Whole → ∀ {r : Reading}, n ≤ r.depth → read r d = .ok x)
    {xs : List α} {items : List Doc} (h : List.Forall₂ Spelled xs items)
    (hitems : (ofList items).Whole) {r : Reading} (hr : n + 1 ≤ r.depth) :
    readList read r (.ofList items) = .ok xs := by
  obtain ⟨r', henter, hr'⟩ := Reading.enter_ok hr
  have hvalues : List.Forall₂ (fun d x => read r' d = .ok x) items xs := by
    have hwhole := hitems.of_list
    clear hitems
    induction h with
    | nil => exact .nil
    | cons hx _ ih =>
      obtain ⟨hd, hrest⟩ := List.forall_mem_cons.mp hwhole
      exact .cons (hread hx hd hr') (ih hrest)
  rw [ofList, readList, henter, ok_bind, mapM_eq_ok.mpr hvalues]
  rfl

theorem item_of_readList {read : Reading → Doc → Result α} {r : Reading} {items : List Doc}
    {ending : Ending} {xs : List α} (h : readList read r (.list items ending) = .ok xs) {d : Doc}
    (hd : d ∈ items) : ∃ r' x, read r' d = .ok x := by
  rw [readList] at h
  obtain ⟨r', -, h⟩ := bind_eq_ok.mp h
  obtain ⟨values, hvalues, -⟩ := bind_eq_ok.mp h
  obtain ⟨x, hx⟩ := exists_of_mapM_ok hvalues hd
  exact ⟨r', x, hx⟩

theorem Slot.item_of_read {rec : Record σ α} {read : Reading → Doc → Result β}
    (a : Slot rec (List β)) (hvalue : a.value = readList read) (hapart : rec.Apart) {r : Reading}
    {members : List (Doc × Doc)} {ending ending' : Ending} {x : α}
    (h : rec.read r (.object members ending) = .ok x) {items : List Doc}
    (hitems : .list items ending' ∈ under a.field.names members) {d : Doc} (hd : d ∈ items) :
    ∃ r' y, read r' d = .ok y := by
  obtain ⟨r', ys, hread⟩ := a.member_of_read hapart h hitems
  exact item_of_readList (hvalue ▸ hread) hd

end TracePlayback.Json
