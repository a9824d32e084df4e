import TracePlayback.Feed.Wire
import TracePlayback.Proofs.Json.Spelling

/-!
# Feeds are read back from JSON

Every part of a feed is spelled by the document it is written as: an id, a node, a link and a graph,
the lines of a live trace, the entries of a ghost trace, the name of a channel. The number in each
`Spells` counts the containers.

The content of a feed is read at once when its kind is known, and from a buffer when it comes first.
`Spells` asks for both, so that one proof about the content serves every order of the two members.

* `Feed.roundTrip`: a feed is read back from its text, from the text with `data` before `type` and
  from the list of the two; a graph, a live trace and a ghost trace are read back from theirs.
-/
namespace TracePlayback

open Json

/-! ## Graphs -/

theorem NodeKind.ofText_name (kind : NodeKind) : ofText kind.name = kind := by
  cases kind <;> rfl

theorem NodeKind.spells (n : Nat) (kind : NodeKind) :
    Spells n (fun _ d => NodeKind.read d) (.ofString kind.name) kind := by
  have hname := (Spells.text n kind.name).map ofText
  rwa [ofText_name] at hname

theorem RawId.spells (n : Nat) (id : RawId) : Spells n RawId.read id.toDoc id := by
  cases id with
  | text s => exact ⟨.text n s, fun _ _ => rfl⟩
  | number i =>
    have hplain : (Doc.ofInt i.toInt).Plain n := .integer n i
    have hid : ofDoc? (.ofInt i.toInt) = (Doc.ofInt i.toInt).readInt64.toOption.map RawId.number :=
      rfl
    refine ⟨hplain, fun r hr => ?_⟩
    rw [toDoc, read, hplain.held.buffer_ok hr, ok_bind, hid, Doc.readInt64_ofInt]
    rfl

theorem NodeInput.spells (n : Nat) (x : NodeInput) : Spells (n + 1) NodeInput.read x.toDoc x := by
  obtain ⟨id, kind, label, line⟩ := x
  have hid := (id.spells n).map fun a => Partial.mk (some a) none none none
  have hkind := (kind.spells n).map fun a => Partial.mk (some id) (some a) none none
  have hlabel := (Spells.text n label).map fun a => Partial.mk (some id) (some kind) (some a) none
  -- Without a line there is no such member, and the record ends as the label has left it.
  obtain ⟨s, hline, hfinish⟩ : ∃ s, Fills n record ⟨some id, some kind, some label, none⟩
      (line.toList.map fun line => ("lineno", .ofInt line.toInt)) s ∧
        record.finish s = .ok ⟨id, kind, label, line⟩ := by
    cases line with
    | none => exact ⟨_, .nil _, rfl⟩
    | some line =>
      have hline := (Spells.integer n line).option.map fun a =>
        Partial.mk (some id) (some kind) (some label) (some a)
      exact ⟨_, .cons rfl rfl hline (.nil _), rfl⟩
  exact Fills.spells (.cons rfl rfl hid (.cons rfl rfl hkind (.cons rfl rfl hlabel hline))) hfinish

theorem LinkInput.spells (n : Nat) (l : LinkInput) : Spells (n + 1) LinkInput.read l.toDoc l := by
  have hsource := (l.source.spells n).map fun a => Partial.mk (some a) none
  have htarget := (l.target.spells n).map fun a => Partial.mk (some l.source) (some a)
  exact Fills.spells (.cons rfl rfl hsource (.cons rfl rfl htarget (.nil _))) rfl

theorem GraphInput.spells (n : Nat) (g : GraphInput) :
    Spells (n + 3) GraphInput.read g.toDoc g := by
  obtain ⟨nodes, links, error⟩ := g
  have hnodes := (Spells.list fun x (_ : x ∈ nodes) => x.spells n).map
    fun a => Partial.mk (some a) none none
  have hlinks := (Spells.list fun l (_ : l ∈ links) => l.spells n).map
    fun a => Partial.mk (some nodes) (some a) none
  rw [List.map_id'] at hnodes hlinks
  obtain ⟨s, herror, hfinish⟩ : ∃ s, Fills (n + 2) record ⟨some nodes, some links, none⟩
      (error.toList.map fun error => ("error", .ofString error)) s ∧
        record.finish s = .ok ⟨nodes, links, error⟩ := by
    cases error with
    | none => exact ⟨_, .nil _, rfl⟩
    | some error =>
      have herror := (Spells.text (n + 2) error).option.map fun a =>
        Partial.mk (some nodes) (some links) (some a)
      exact ⟨_, .cons rfl rfl herror (.nil _), rfl⟩
  exact Fills.spells (.cons rfl rfl hnodes (.cons rfl rfl hlinks herror)) hfinish

/-! ## Traces -/

theorem LiveEntry.spells (n : Nat) (i : Int64) :
    Spells n LiveEntry.read (.ofInt i.toInt) (.line i) := by
  have hplain : (Doc.ofInt i.toInt).Plain n := .integer n i
  refine ⟨hplain, fun r hr => ?_⟩
  rw [read, hplain.held.buffer_ok hr, ok_bind, ofDoc?, Doc.readInt64_ofInt]
  rfl

theorem LiveTrace.spells (n : Nat) (t : LiveTrace) : Spells (n + 1) LiveTrace.read t.toDoc t := by
  have hlines := (Spells.list fun i (_ : i ∈ t.lines.toList) => LiveEntry.spells n i).map ofEntries
  have htrace : ofEntries (t.lines.toList.map .line) = t := by
    rw [ofEntries, List.map_map]
    change LiveTrace.mk (t.lines.toList.map id).toArray = t
    rw [List.map_id]
  rwa [htrace] at hlines

theorem GhostEntry.spells (n : Nat) (e : GhostEntry) :
    Spells (n + 1) GhostEntry.read e.toDoc e := by
  have hline := (Spells.integer n e.line).map fun a => Partial.mk (some a) none
  have htime := (Spells.integer n e.timestamp).map fun a => Partial.mk (some e.line) (some a)
  exact Fills.spells (.cons rfl rfl hline (.cons rfl rfl htime (.nil _))) rfl

theorem GhostTrace.spells (n : Nat) (t : GhostTrace) :
    Spells (n + 2) GhostTrace.read t.toDoc t := by
  have hentries := (Spells.list fun e (_ : e ∈ t.entries.toList) => e.spells n).map
    fun es => GhostTrace.mk es.toArray
  rwa [List.map_id'] at hentries

theorem ChannelName.spells (n : Nat) (c : ChannelName) :
    Spells n ChannelName.read c.toDoc c := by
  refine ⟨.text n c.name, fun r _ => ?_⟩
  cases c <;> rfl

/-! ## Feeds -/

namespace Feed

theorem Kind.lookUp_name (kind : Kind) : Doc.lookUp known kind.name = .ok kind := by
  cases kind <;> rfl

theorem parts_spells (f : Feed) : Spells 3 f.parts.1.content.2 f.parts.2 f := by
  cases f with
  | graph input => exact (input.spells 0).map Feed.graph
  | liveTrace trace => exact (trace.spells 2).map Feed.liveTrace
  | ghostTrace trace => exact (trace.spells 1).map Feed.ghostTrace
  | clear channel => exact (channel.spells 3).map Feed.clear

theorem Kind.readContent_spells {n : Nat} (kind : Kind) {d : Doc} {f : Feed}
    (h : Spells n kind.content.2 d f) :
    Spells (n + 1) kind.readContent (.ofMembers [(kind.content.1, d)]) f := by
  have hvalue := h.map some
  have hrecord : Spells (n + 1) kind.record.read (.ofMembers [(kind.content.1, d)]) f := by
    cases kind <;> exact Fills.spells (.cons rfl rfl hvalue (.nil _)) rfl
  exact ⟨hrecord.plain, hrecord.read⟩

theorem contentDoc_spells (f : Feed) : Spells 4 f.parts.1.readContent f.contentDoc f :=
  f.parts.1.readContent_spells f.parts_spells

theorem Kind.read_name (r : Reading) (kind : Kind) : read r (.ofString kind.name) = .ok kind :=
  kind.lookUp_name

/-- The object with `type` before `data`: the content is read at once. -/
theorem spells (f : Feed) : Spells 5 Feed.read f.toDoc f := by
  have hcontent := f.contentDoc_spells
  refine ⟨.object ?_, fun r hr => ?_⟩
  · exact List.forall_mem_cons.mpr ⟨.text 4 _, List.forall_mem_singleton.mpr hcontent.plain⟩
  · obtain ⟨r', henter, hr'⟩ := Reading.enter_ok hr
    rw [toDoc, Doc.ofMembers, read, henter, ok_bind]
    simp only [List.map_cons, List.map_nil, readMembers, readAfterType, Doc.readKey_ofString,
      ok_bind, Kind.read_name, hcontent.read r' hr']
    rfl

/-- The object with `data` before `type`: the content is buffered, and read when the kind is
known. -/
theorem exchanged_spells (f : Feed) :
    Spells 5 Feed.read
      (.ofMembers [("data", f.contentDoc), ("type", .ofString f.parts.1.name)]) f := by
  have hcontent := f.contentDoc_spells
  refine ⟨.object ?_, fun r hr => ?_⟩
  · exact List.forall_mem_cons.mpr ⟨hcontent.plain, List.forall_mem_singleton.mpr (.text 4 _)⟩
  · obtain ⟨r', henter, hr'⟩ := Reading.enter_ok hr
    have hbuffer := hcontent.plain.held.buffer_ok hr'
    have hread := hcontent.read { r' with buffered := true } hr'
    rw [Doc.ofMembers, read, henter, ok_bind]
    simp only [List.map_cons, List.map_nil, readMembers, readAfterData, Doc.readKey_ofString,
      ok_bind, Kind.read_name, hbuffer, hread]
    rfl

/-- The list of the kind and the content. -/
theorem pair_spells (f : Feed) :
    Spells 5 Feed.read (.ofList [.ofString f.parts.1.name, f.contentDoc]) f := by
  have hcontent := f.contentDoc_spells
  refine ⟨.list ?_, fun r hr => ?_⟩
  · exact List.forall_mem_cons.mpr ⟨.text 4 _, List.forall_mem_singleton.mpr hcontent.plain⟩
  · obtain ⟨r', henter, hr'⟩ := Reading.enter_ok hr
    have hkind : Kind.readBare (.ofString f.parts.1.name) = .ok f.parts.1 := f.parts.1.lookUp_name
    rw [Doc.ofList, read, henter, ok_bind]
    simp only [hkind, ok_bind, hcontent.read r' hr']
    rfl

/-- **Feeds are read back.** The text of a feed decodes to the feed, and so do the text with `data`
before `type` and the list of the two. Graphs and traces of either sort are read back from theirs.
-/
theorem roundTrip :
    (∀ f : Feed,
      ofJson f.toDoc.write = .ok f ∧
      ofJson (Doc.ofMembers
        [("data", f.contentDoc), ("type", .ofString f.parts.1.name)]).write = .ok f ∧
      ofJson (Doc.ofList [.ofString f.parts.1.name, f.contentDoc]).write = .ok f) ∧
    (∀ g : GraphInput, GraphInput.ofJson g.toDoc.write = .ok g) ∧
    (∀ t : LiveTrace, LiveTrace.ofJson t.toDoc.write = .ok t) ∧
    ∀ t : GhostTrace, GhostTrace.ofJson t.toDoc.write = .ok t := by
  refine ⟨fun f => ⟨?_, ?_, ?_⟩, fun g => ?_, fun t => ?_, fun t => ?_⟩
  · exact f.spells.decode_write (by decide)
  · exact f.exchanged_spells.decode_write (by decide)
  · exact f.pair_spells.decode_write (by decide)
  · exact (g.spells 0).decode_write (by decide)
  · exact (t.spells 0).decode_write (by decide)
  · exact (t.spells 0).decode_write (by decide)

/-- The text of a live trace whose first line is the least integer there is. -/
example : String.ofList (Feed.liveTrace ⟨#[-9223372036854775808, 7]⟩).toDoc.write =
    "\x7b\"type\":\"LiveTrace\",\"data\":\x7b\"trace\":[-9223372036854775808,7]\x7d\x7d" := by
  decide

end Feed
end TracePlayback
