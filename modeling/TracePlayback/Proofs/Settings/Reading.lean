import TracePlayback.Proofs.Settings.Document
import TracePlayback.Proofs.Toml.Key

/-!
# What a document gives, and what it leaves out

Reading goes through the entries of a table one by one, each setting one field. When no key is
given twice, the outcome is the fields from before with the given ones in their place (`overlay`),
whatever the order of the entries and whichever of them are there (`readEntries_fields`).

* `written_ofToml?`: so the settings of a document are the defaults with what its tables give.
* `ofToml?_toToml?`: and all settings come back from their own document.
-/
namespace TracePlayback

open Toml

namespace Settings

/-! ## Fields -/

section Fields

variable {σ β : Type}

/-- The fields with another value for one key. -/
def replace (key : String) (b : β) (fields : List (String × β)) : List (String × β) :=
  fields.map fun e => if e.1 = key then (e.1, b) else e

/-- The slots of a group read its fields: each slot that of its key, and no other. -/
structure Faithful (slots : List (Slot σ)) (fields : σ → List (String × β))
    (read? : String → Value → Option β) : Prop where
  keys : ∀ s, slots.map (·.key) = keys (fields s)
  set : ∀ slot ∈ slots, ∀ v s,
    (slot.set? v s).map fields = (read? slot.key v).map (replace slot.key · (fields s))

variable {slots : List (Slot σ)} {fields : σ → List (String × β)}
  {read? : String → Value → Option β}

/-- The fields after reading entries without a key twice: what is given, and else what was
before. -/
theorem readEntries_fields (h : Faithful slots fields read?) {entries : List (String × Value)}
    (hnodup : (keys entries).Nodup) (s : σ)
    (hfit : ∀ key ∈ keys (fields s), ∀ v, entries.lookup key = some v →
      (read? key v).isSome = true) :
    (readEntries slots entries s).map fields =
      some ((fields s).map fun e => (e.1, ((entries.lookup e.1).bind (read? e.1)).getD e.2)) := by
  induction entries generalizing s with
  | nil => simp [readEntries]
  | cons entry entries ih =>
    obtain ⟨key, v⟩ := entry
    obtain ⟨hnew, hmore⟩ := List.nodup_cons.mp hnodup
    have hother : ∀ {k}, k ≠ key → ((key, v) :: entries).lookup k = entries.lookup k := by
      intro k hk
      rw [List.lookup_cons, beq_eq_false_iff_ne.mpr hk]
    rw [readEntries]
    cases hfind : slots.find? (·.key = key) with
    | none =>
      -- a key that is not known
      have hne : ∀ k ∈ keys (fields s), k ≠ key := by
        intro k hk
        rw [← h.keys s] at hk
        obtain ⟨slot, hslot, rfl⟩ := List.mem_map.mp hk
        simpa using List.find?_eq_none.mp hfind slot hslot
      have hrest := ih hmore s fun k hk w hw => hfit k hk w (by rw [hother (hne k hk), hw])
      refine hrest.trans (congrArg some (List.map_congr_left fun e he => ?_))
      rw [hother (hne e.1 (List.mem_map_of_mem he))]
    | some slot =>
      have hslot := List.mem_of_find?_eq_some hfind
      obtain rfl : slot.key = key := by simpa using List.find?_some hfind
      have hkey : slot.key ∈ keys (fields s) := by
        rw [← h.keys s]
        exact List.mem_map_of_mem hslot
      obtain ⟨b, hb⟩ := Option.isSome_iff_exists.mp (hfit _ hkey v List.lookup_cons_self)
      have hset := h.set slot hslot v s
      rw [hb, Option.map_some] at hset
      obtain ⟨s', hs', hfields⟩ := Option.map_eq_some_iff.mp hset
      have hgone := lookup_of_not_mem hnew
      have hrest := ih hmore s' fun k hk w hw => by
        have hne : k ≠ slot.key := by
          rintro rfl
          rw [hgone] at hw
          cases hw
        rw [← h.keys s', h.keys s] at hk
        exact hfit k hk w (by rw [hother hne, hw])
      simp only [hs', Option.bind_eq_bind, Option.bind_some]
      rw [hrest, hfields, replace, List.map_map]
      refine congrArg some (List.map_congr_left fun e _ => ?_)
      by_cases he : e.1 = slot.key
      · simp [he, hgone, hb]
      · simp [he, hother he]

end Fields

/-- A value where a setting is expected, as that setting. -/
def Written.read? : Written → Value → Option Written
  | .nat _, v => (readNat? v).map .nat
  | .single _, v => (readSingle? v).map .single
  | .bool _, v => (readBool? v).map .bool

/-! ## Groups -/

def layoutFields (s : LayoutSettings) : List (String × Written) := [
  ("max_dt_ms", .nat s.maxDtMs), ("repulsion", .single s.repulsion),
  ("centering", .single s.centering), ("spring", .single s.spring), ("damping", .single s.damping),
  ("speed", .single s.speed), ("max_step", .single s.maxStep), ("epsilon_sq", .single s.epsilonSq),
  ("initial_spread", .single s.initialSpread)]

def playbackFields (s : PlaybackSettings) : List (String × Written) := [
  ("live_step_ms", .nat s.liveStepMs), ("ghost_min_delay_ms", .nat s.ghostMinDelayMs),
  ("ghost_tail_ms", .nat s.ghostTailMs), ("loop_live", .bool s.loopLive),
  ("loop_ghost", .bool s.loopGhost)]

def pulseFields (s : PulseSettings) : List (String × Written) := [("speed", .single s.speed)]

def audioFields (s : AudioSettings) : List (String × Written) := [("enabled", .bool s.enabled)]

theorem written_eq (s : Settings) : s.written = [
    ("layout", layoutFields s.layout), ("playback", playbackFields s.playback),
    ("particles", pulseFields s.pulses), ("audio", audioFields s.audio)] := rfl

/-- A value of a field, given the fields with values of their kinds. -/
def readField? (fields : List (String × Written)) (key : String) (v : Value) : Option Written :=
  (fields.lookup key).bind (·.read? v)

/-- To put what is read into a group changes the group's fields as it says. -/
theorem map_put {α σ β γ : Type} (read : Option α) {put : α → σ} {fields : σ → γ} {field : α → β}
    {change : β → γ} (h : ∀ a, fields (put a) = change (field a)) :
    (read.bind fun a => some (put a)).map fields = (read.map field).map change := by
  cases read with
  | none => rfl
  | some a => exact congrArg some (h a)

theorem faithful_layout : Faithful layoutSlots layoutFields (readField? (layoutFields {})) where
  keys _ := rfl
  set slot hslot v s := by
    simp only [layoutSlots, List.mem_cons, List.not_mem_nil, or_false] at hslot
    rcases hslot with rfl | rfl | rfl | rfl | rfl | rfl | rfl | rfl | rfl
    · exact map_put (readNat? v) fun _ => rfl
    all_goals exact map_put (readSingle? v) fun _ => rfl

theorem faithful_playback :
    Faithful playbackSlots playbackFields (readField? (playbackFields {})) where
  keys _ := rfl
  set slot hslot v s := by
    simp only [playbackSlots, List.mem_cons, List.not_mem_nil, or_false] at hslot
    rcases hslot with rfl | rfl | rfl | rfl | rfl
    iterate 3 exact map_put (readNat? v) fun _ => rfl
    all_goals exact map_put (readBool? v) fun _ => rfl

theorem faithful_pulses : Faithful pulseSlots pulseFields (readField? (pulseFields {})) where
  keys _ := rfl
  set slot hslot v s := by
    obtain rfl := List.mem_singleton.mp hslot
    exact map_put (readSingle? v) fun _ => rfl

theorem faithful_audio : Faithful audioSlots audioFields (readField? (audioFields {})) where
  keys _ := rfl
  set slot hslot v s := by
    obtain rfl := List.mem_singleton.mp hslot
    exact map_put (readBool? v) fun _ => rfl

/-- Fields with what a table gives in their place. -/
def overlay (entries : List (String × Value)) (fields : List (String × Written)) :
    List (String × Written) :=
  fields.map fun e => (e.1, ((entries.lookup e.1).bind e.2.read?).getD e.2)

/-- What a table gives for fields has their kinds. -/
def Suits (entries : List (String × Value)) (fields : List (String × Written)) : Prop :=
  ∀ e ∈ fields, ∀ v, entries.lookup e.1 = some v → (e.2.read? v).isSome = true

instance (entries : List (String × Value)) (fields : List (String × Written)) :
    Decidable (Suits entries fields) :=
  inferInstanceAs (Decidable (∀ e ∈ fields, ∀ v ∈ entries.lookup e.1, (e.2.read? v).isSome = true))

/-- A group from its table: the default fields with the given ones in their place. -/
theorem readGroup?_table {σ : Type} {slots : List (Slot σ)} {fields : σ → List (String × Written)}
    {defaults : σ} (h : Faithful slots fields (readField? (fields defaults)))
    (hfields : (keys (fields defaults)).Nodup) {entries : List (String × Value)}
    (hnodup : (keys entries).Nodup) (hsuits : Suits entries (fields defaults)) :
    (readGroup? slots defaults (.table entries)).map fields =
      some (overlay entries (fields defaults)) := by
  have hread : ∀ e ∈ fields defaults, readField? (fields defaults) e.1 = e.2.read? := by
    intro e he
    funext v
    rw [readField?, lookup_of_mem hfields he, Option.bind_some]
  have hentries := readEntries_fields h hnodup defaults fun key hkey v hv => by
    obtain ⟨e, he, rfl⟩ := List.mem_map.mp hkey
    rw [hread e he]
    exact hsuits e he v hv
  refine hentries.trans (congrArg some (List.map_congr_left fun e he => ?_))
  rw [hread e he]

/-! ## Documents -/

/-- The fields of a group from its value in a document, by the group's name. -/
def readFields? (name : String) (v : Value) : Option (List (String × Written)) :=
  ([("layout", (readGroup? layoutSlots {} v).map layoutFields),
    ("playback", (readGroup? playbackSlots {} v).map playbackFields),
    ("particles", (readGroup? pulseSlots {} v).map pulseFields),
    ("audio", (readGroup? audioSlots {} v).map audioFields)].lookup name).join

theorem faithful_settings : Faithful slots written readFields? where
  keys _ := rfl
  set slot hslot v s := by
    simp only [slots, List.mem_cons, List.not_mem_nil, or_false] at hslot
    rcases hslot with rfl | rfl | rfl | rfl
    · exact map_put (readGroup? layoutSlots {} v) fun _ => rfl
    · exact map_put (readGroup? playbackSlots {} v) fun _ => rfl
    · exact map_put (readGroup? pulseSlots {} v) fun _ => rfl
    · exact map_put (readGroup? audioSlots {} v) fun _ => rfl

/-- The entries of a table of a document; none if the document does not have it. -/
def tableOf (doc : List (String × Value)) (name : String) : List (String × Value) :=
  match doc.lookup name with
  | some (.table entries) => entries
  | _ => []

/-- Where a document has the name of a group, there is a table, and what it gives for the settings
of the group has their kinds. -/
def Fits (doc : List (String × Value)) : Prop :=
  ∀ g ∈ written {}, ∀ v, doc.lookup g.1 = some v → ∃ entries, v = .table entries ∧ Suits entries g.2

instance (v : Value) (fields : List (String × Written)) :
    Decidable (∃ entries, v = .table entries ∧ Suits entries fields) :=
  match v with
  | .table entries => decidable_of_iff (Suits entries fields) (by simp)
  | .text _ | .integer _ | .float _ | .bool _ | .moment | .list _ => isFalse (by simp)

instance (doc : List (String × Value)) : Decidable (Fits doc) :=
  inferInstanceAs (Decidable (∀ g ∈ written {}, ∀ v ∈ doc.lookup g.1,
    ∃ entries, v = .table entries ∧ Suits entries g.2))

theorem readFields?_table {g : Group} (hg : g ∈ written {}) {entries : List (String × Value)}
    (hnodup : (keys entries).Nodup) (hsuits : Suits entries g.2) :
    readFields? g.1 (.table entries) = some (overlay entries g.2) := by
  rw [written_eq] at hg
  simp only [List.mem_cons, List.not_mem_nil, or_false] at hg
  rcases hg with rfl | rfl | rfl | rfl
  · exact readGroup?_table faithful_layout (by decide) hnodup hsuits
  · exact readGroup?_table faithful_playback (by decide) hnodup hsuits
  · exact readGroup?_table faithful_pulses (by decide) hnodup hsuits
  · exact readGroup?_table faithful_audio (by decide) hnodup hsuits

theorem overlay_nil (fields : List (String × Written)) : overlay [] fields = fields :=
  List.map_id fields

/-- The settings of a document are the defaults with what its tables give. -/
theorem written_ofToml? {text : List Char} {doc : List (String × Value)}
    (h : parse? text = some doc) (hfits : Fits doc) :
    (ofToml? text).map written =
      some ((written {}).map fun g => (g.1, overlay (tableOf doc g.1) g.2)) := by
  obtain ⟨hnodup, hdistinct⟩ := parse?_distinct h
  have hgroup : ∀ g ∈ written {}, ∀ v, doc.lookup g.1 = some v →
      readFields? g.1 v = some (overlay (tableOf doc g.1) g.2) := by
    intro g hg v hv
    obtain ⟨entries, rfl, hsuits⟩ := hfits g hg v hv
    rw [tableOf, hv]
    exact readFields?_table hg (hdistinct hv) hsuits
  have hread := readEntries_fields faithful_settings hnodup {} fun name hname v hv => by
    obtain ⟨g, hg, rfl⟩ := List.mem_map.mp hname
    rw [hgroup g hg v hv]
    rfl
  rw [ofToml?, h]
  refine hread.trans (congrArg some (List.map_congr_left fun g hg => ?_))
  cases hv : doc.lookup g.1 with
  | none => rw [tableOf, hv, overlay_nil]; rfl
  | some v => rw [Option.bind_some, hgroup g hg v hv, Option.getD_some]

/-! ## There and back -/

theorem read?_nat (m n : Nat) : (Written.nat m).read? (Written.nat n).value = some (.nat n) := by
  rw [Written.read?, Written.value, readNat?, if_pos (Int.natCast_nonneg n), Int.toNat_natCast]
  rfl

theorem read?_single (x y : Float32) :
    (Written.single x).read? (Written.single y).value = some (.single y) := by
  rw [Written.read?, Written.value, readSingle?, Decimal.narrow_widen]
  rfl

theorem read?_bool (a b : Bool) :
    (Written.bool a).read? (Written.bool b).value = some (.bool b) := rfl

/-- Fields of the same keys and kinds. -/
def Kin (fields defaults : List (String × Written)) : Prop :=
  List.Forall₂ (fun e d => e.1 = d.1 ∧ d.2.read? e.2.value = some e.2) fields defaults

theorem overlay_of_kin {fields defaults : List (String × Written)} (hkin : Kin fields defaults)
    {entries : List (String × Value)} (h : ∀ e ∈ fields, entries.lookup e.1 = some e.2.value) :
    Suits entries defaults ∧ overlay entries defaults = fields := by
  induction hkin with
  | nil => exact ⟨List.forall_mem_nil _, rfl⟩
  | cons hhead _ ih =>
    obtain ⟨hkey, hread⟩ := hhead
    obtain ⟨hfirst, hmore⟩ := List.forall_mem_cons.mp h
    obtain ⟨hsuits, heq⟩ := ih hmore
    rw [hkey] at hfirst
    refine ⟨List.forall_mem_cons.mpr ⟨fun v hv => ?_, hsuits⟩, ?_⟩
    · rw [hfirst] at hv
      obtain rfl := Option.some.inj hv
      rw [hread]
      rfl
    · rw [overlay, List.map_cons, hfirst, Option.bind_some, hread, Option.getD_some, ← hkey]
      exact congrArg _ heq

/-- Groups of the same names with fields of the same keys and kinds. -/
def KinGroups (groups defaults : List Group) : Prop :=
  List.Forall₂ (fun g d => g.1 = d.1 ∧ Kin g.2 d.2) groups defaults

/-- Where a document has the tables of groups, it gives these groups. -/
theorem groups_of_kin {groups defaults : List Group} (hkin : KinGroups groups defaults)
    {doc : List (String × Value)} (hkeys : ∀ g ∈ groups, (keys g.2).Nodup)
    (hdoc : ∀ g ∈ groups, doc.lookup g.1 = some (.table g.table.2)) :
    (∀ d ∈ defaults, ∀ v, doc.lookup d.1 = some v →
        ∃ entries, v = .table entries ∧ Suits entries d.2) ∧
      (defaults.map fun d => (d.1, overlay (tableOf doc d.1) d.2)) = groups := by
  induction hkin with
  | nil => exact ⟨List.forall_mem_nil _, rfl⟩
  | @cons g d _ _ hhead _ ih =>
    obtain ⟨hname, hfields⟩ := hhead
    obtain ⟨hnodup, hkeys⟩ := List.forall_mem_cons.mp hkeys
    obtain ⟨htable, hdoc⟩ := List.forall_mem_cons.mp hdoc
    obtain ⟨hfits, heq⟩ := ih hkeys hdoc
    have hentries : ∀ e ∈ g.2, g.table.2.lookup e.1 = some e.2.value := fun e he =>
      lookup_of_mem (e := (e.1, e.2.value)) (by rwa [keys_table]) (List.mem_map_of_mem he)
    obtain ⟨hsuits, hoverlay⟩ := overlay_of_kin hfields hentries
    rw [hname] at htable
    refine ⟨List.forall_mem_cons.mpr ⟨fun v hv => ?_, hfits⟩, ?_⟩
    · rw [htable] at hv
      exact ⟨_, (Option.some.inj hv).symm, hsuits⟩
    · rw [List.map_cons, heq, tableOf, htable]
      simp only [hoverlay, ← hname]

theorem kin_written (s : Settings) : KinGroups s.written (written {}) := by
  simp [KinGroups, Kin, written_eq, layoutFields, playbackFields, pulseFields, audioFields,
    read?_nat, read?_single, read?_bool]

theorem written_injective {s t : Settings} (h : s.written = t.written) : s = t := by
  obtain ⟨⟨⟩, ⟨⟩, ⟨⟩, ⟨⟩⟩ := s
  obtain ⟨⟨⟩, ⟨⟩, ⟨⟩, ⟨⟩⟩ := t
  simpa [written] using h

theorem ofToml?_toToml? {s : Settings} {text : String} (h : s.toToml? = some text) :
    ofToml? text.toList = some s := by
  have hparse := parse?_toToml? h
  have hkeyed := keyed_written s
  have hnodup := (parse?_distinct hparse).1
  let entry (g : Group) : String × Value := (g.1, .table g.table.2)
  have hdoc : ∀ g ∈ s.written, (s.written.map entry).lookup g.1 = some (.table (Group.table g).2) :=
    fun g hg => lookup_of_mem (e := entry g) hnodup (List.mem_map_of_mem hg)
  obtain ⟨hfits, heq⟩ := groups_of_kin (kin_written s)
    (fun g hg => hkeyed.keys (g.1, keys g.2) (List.mem_map_of_mem hg)) hdoc
  have hread := written_ofToml? hparse hfits
  rw [heq] at hread
  obtain ⟨t, ht, hwritten⟩ := Option.map_eq_some_iff.mp hread
  rw [ht, written_injective hwritten]

end Settings
end TracePlayback
