import TracePlayback.Proofs.Feed.RoundTrip
import TracePlayback.Proofs.Json.Members

/-!
# A graph is what its document says, however it is presented

An object spells a node, a link or a graph by its members alone: they may stand in any order and
among others of unknown names, a member with a default may be left out where the default is meant,
and the line of a node has two names (`NodeInput.SpelledBy`, `LinkInput.SpelledBy`,
`GraphInput.SpelledBy`). A kind is spelled by every text that names it (`NodeKind.IsNamed`).

Members of unknown names are skipped, not buffered, so nothing is asked of their documents but that
they are whole. Their names are read, and have to be texts.

* `GraphInput.ofJson_presented`: every text of an object that spells a graph decodes to that graph,
  and no text decodes whose graph, or a node or link of it, has a known member twice.
* `GraphInput.ofJson_halves_refused`: a name and a kind with half of a surrogate pair.
-/
namespace TracePlayback

open Json

/-! ## What the documents say -/

namespace NodeKind

/-- The text names the kind: without the blanks around it and with small letters it is the kind's
name. A text that is no name stands for the unknown kind. -/
def IsNamed (text : String) : NodeKind → Prop
  | .unknown => ∀ kind ∈ named, Text.lower (Text.trim text.toList) ≠ kind.name.toList
  | kind => Text.lower (Text.trim text.toList) = kind.name.toList

theorem ofText_of_isNamed {text : String} {kind : NodeKind} (h : kind.IsNamed text) :
    ofText text = kind := by
  cases kind with
  | unknown =>
    have hnone : (named.find? fun kind =>
        kind.name.toList == Text.lower (Text.trim text.toList)) = none :=
      List.find?_eq_none.mpr fun kind hkind heq => h kind hkind (eq_of_beq heq).symm
    simp only [ofText, hnone, Option.getD_none]
  | _ =>
    have hkey : Text.lower (Text.trim text.toList) = _ := h
    simp only [ofText, hkey]
    rfl

end NodeKind

/-- The members of an object spell a node. -/
structure NodeInput.Members (x : NodeInput) (members : List (Doc × Doc)) : Prop where
  id : Doc.Tells ["id"] members False (· = x.id.toDoc)
  kind : Doc.Tells ["type"] members (x.kind = .unknown)
    fun d => ∃ text, d = .ofString text ∧ x.kind.IsNamed text
  label : Doc.Tells ["label"] members (x.label = "") (· = .ofString x.label)
  line : Doc.Tells ["lineno", "lineNumber"] members (x.line = none)
    (· = (x.line.map fun line => Doc.ofInt line.toInt).getD .null)

/-- The document is an object that spells the node. -/
def NodeInput.SpelledBy (x : NodeInput) (d : Doc) : Prop :=
  ∃ members, d = .ofMembers members ∧ x.Members (Doc.keyed members)

structure LinkInput.Members (l : LinkInput) (members : List (Doc × Doc)) : Prop where
  source : Doc.Tells ["source"] members False (· = l.source.toDoc)
  target : Doc.Tells ["target"] members False (· = l.target.toDoc)

def LinkInput.SpelledBy (l : LinkInput) (d : Doc) : Prop :=
  ∃ members, d = .ofMembers members ∧ l.Members (Doc.keyed members)

structure GraphInput.Members (g : GraphInput) (members : List (Doc × Doc)) : Prop where
  nodes : Doc.Tells ["nodes"] members (g.nodes = [])
    fun d => ∃ items, d = .ofList items ∧ List.Forall₂ NodeInput.SpelledBy g.nodes items
  links : Doc.Tells ["links"] members (g.links = [])
    fun d => ∃ items, d = .ofList items ∧ List.Forall₂ LinkInput.SpelledBy g.links items
  error : Doc.Tells ["error"] members (g.error = none)
    (· = (g.error.map Doc.ofString).getD .null)

def GraphInput.SpelledBy (g : GraphInput) (d : Doc) : Prop :=
  ∃ members, d = .ofMembers members ∧ g.Members (Doc.keyed members)

/-- The document is an object with a known member twice, or one of the nodes or links in it is. -/
inductive GraphInput.Repeated : Doc → Prop
  | graph {d : Doc} (h : d.Repeats [["nodes"], ["links"], ["error"]]) : Repeated d
  | node {members : List (Doc × Doc)} {ending ending' : Ending} {items : List Doc} {d : Doc}
      (hitems : .list items ending' ∈ Doc.under ["nodes"] members) (hd : d ∈ items)
      (h : d.Repeats [["id"], ["type"], ["label"], ["lineno", "lineNumber"]]) :
      Repeated (.object members ending)
  | link {members : List (Doc × Doc)} {ending ending' : Ending} {items : List Doc} {d : Doc}
      (hitems : .list items ending' ∈ Doc.under ["links"] members) (hd : d ∈ items)
      (h : d.Repeats [["source"], ["target"]]) : Repeated (.object members ending)

/-! ## Nodes -/

namespace NodeInput

def idSlot : Slot record RawId where
  field := record.fields[0]
  get := Partial.id
  put a s := { s with id := some a }
  value := RawId.read
  keeps := by
    simp only [record, List.forall_mem_cons]
    refine ⟨.inl rfl, .inr ?_, .inr ?_, .inr ?_, nofun⟩
    all_goals exact fun _ _ _ _ h => keeps_of_put h fun _ => rfl

def kindSlot : Slot record NodeKind where
  field := record.fields[1]
  get := Partial.kind
  put a s := { s with kind := some a }
  value _ := NodeKind.read
  keeps := by
    simp only [record, List.forall_mem_cons]
    refine ⟨.inr ?_, .inl rfl, .inr ?_, .inr ?_, nofun⟩
    all_goals exact fun _ _ _ _ h => keeps_of_put h fun _ => rfl

def labelSlot : Slot record String where
  field := record.fields[2]
  get := Partial.label
  put a s := { s with label := some a }
  value _ := Doc.readText
  keeps := by
    simp only [record, List.forall_mem_cons]
    refine ⟨.inr ?_, .inr ?_, .inl rfl, .inr ?_, nofun⟩
    all_goals exact fun _ _ _ _ h => keeps_of_put h fun _ => rfl

def lineSlot : Slot record (Option Int64) where
  field := record.fields[3]
  get := Partial.line
  put a s := { s with line := some a }
  value _ := Doc.readOption Doc.readInt64
  keeps := by
    simp only [record, List.forall_mem_cons]
    refine ⟨.inr ?_, .inr ?_, .inr ?_, .inl rfl, nofun⟩
    all_goals exact fun _ _ _ _ h => keeps_of_put h fun _ => rfl

theorem record_apart : record.Apart := by
  simp [Record.Apart, record, Field.names]

theorem record_slotted : record.Slotted := by
  simp only [Record.Slotted, record, List.forall_mem_cons]
  exact ⟨⟨_, idSlot, rfl⟩, ⟨_, kindSlot, rfl⟩, ⟨_, labelSlot, rfl⟩, ⟨_, lineSlot, rfl⟩, nofun⟩

theorem read_of_spelledBy {x : NodeInput} {d : Doc} (h : x.SpelledBy d) (hd : d.Whole)
    {r : Reading} (hr : 1 ≤ r.depth) : NodeInput.read r d = .ok x := by
  obtain ⟨members, rfl, h⟩ := h
  obtain ⟨r', henter, -⟩ := Reading.enter_ok hr
  have hid : idSlot.Told r' (Doc.keyed members) x.id False :=
    idSlot.told h.id fun d _ hd => hd ▸ (x.id.spells 0).read r' (Nat.zero_le _)
  have hkind : kindSlot.Told r' (Doc.keyed members) x.kind (x.kind = .unknown) := by
    refine kindSlot.told h.kind ?_
    rintro d - ⟨text, rfl, htext⟩
    exact congrArg Except.ok (NodeKind.ofText_of_isNamed htext)
  have hlabel : labelSlot.Told r' (Doc.keyed members) x.label (x.label = "") :=
    labelSlot.told h.label fun d _ hd => hd ▸ rfl
  have hline : lineSlot.Told r' (Doc.keyed members) x.line (x.line = none) :=
    lineSlot.told h.line fun d _ hd => hd ▸ Spells.readOption_getD (Spells.integer 0) x.line
  refine Record.read_object record_apart record_slotted henter hd ?_ fun s hs => ?_
  · simp only [record, List.forall_mem_cons]
    exact ⟨hid.fieldOpen, hkind.fieldOpen, hlabel.fieldOpen, hline.fieldOpen, nofun⟩
  · have hid : s.id = some x.id := hid.get_eq record_apart hs
    have hkind : s.kind.getD .unknown = x.kind := hkind.getD_eq record_apart hs
    have hlabel : s.label.getD "" = x.label := hlabel.getD_eq record_apart hs
    have hline : s.line.getD none = x.line := hline.getD_eq record_apart hs
    simp only [record, hid, hkind, hlabel, hline]

end NodeInput

/-! ## Links -/

namespace LinkInput

def sourceSlot : Slot record RawId where
  field := record.fields[0]
  get := Partial.source
  put a s := { s with source := some a }
  value := RawId.read
  keeps := by
    simp only [record, List.forall_mem_cons]
    refine ⟨.inl rfl, .inr ?_, nofun⟩
    exact fun _ _ _ _ h => keeps_of_put h fun _ => rfl

def targetSlot : Slot record RawId where
  field := record.fields[1]
  get := Partial.target
  put a s := { s with target := some a }
  value := RawId.read
  keeps := by
    simp only [record, List.forall_mem_cons]
    refine ⟨.inr ?_, .inl rfl, nofun⟩
    exact fun _ _ _ _ h => keeps_of_put h fun _ => rfl

theorem record_apart : record.Apart := by
  simp [Record.Apart, record, Field.names]

theorem record_slotted : record.Slotted := by
  simp only [Record.Slotted, record, List.forall_mem_cons]
  exact ⟨⟨_, sourceSlot, rfl⟩, ⟨_, targetSlot, rfl⟩, nofun⟩

theorem read_of_spelledBy {l : LinkInput} {d : Doc} (h : l.SpelledBy d) (hd : d.Whole)
    {r : Reading} (hr : 1 ≤ r.depth) : LinkInput.read r d = .ok l := by
  obtain ⟨members, rfl, h⟩ := h
  obtain ⟨r', henter, -⟩ := Reading.enter_ok hr
  have hsource : sourceSlot.Told r' (Doc.keyed members) l.source False :=
    sourceSlot.told h.source fun d _ hd => hd ▸ (l.source.spells 0).read r' (Nat.zero_le _)
  have htarget : targetSlot.Told r' (Doc.keyed members) l.target False :=
    targetSlot.told h.target fun d _ hd => hd ▸ (l.target.spells 0).read r' (Nat.zero_le _)
  refine Record.read_object record_apart record_slotted henter hd ?_ fun s hs => ?_
  · simp only [record, List.forall_mem_cons]
    exact ⟨hsource.fieldOpen, htarget.fieldOpen, nofun⟩
  · have hsource : s.source = some l.source := hsource.get_eq record_apart hs
    have htarget : s.target = some l.target := htarget.get_eq record_apart hs
    simp only [record, hsource, htarget]

end LinkInput

/-! ## Graphs -/

namespace GraphInput

def nodesSlot : Slot record (List NodeInput) where
  field := record.fields[0]
  get := Partial.nodes
  put a s := { s with nodes := some a }
  value := Doc.readList NodeInput.read
  keeps := by
    simp only [record, List.forall_mem_cons]
    refine ⟨.inl rfl, .inr ?_, .inr ?_, nofun⟩
    all_goals exact fun _ _ _ _ h => keeps_of_put h fun _ => rfl

def linksSlot : Slot record (List LinkInput) where
  field := record.fields[1]
  get := Partial.links
  put a s := { s with links := some a }
  value := Doc.readList LinkInput.read
  keeps := by
    simp only [record, List.forall_mem_cons]
    refine ⟨.inr ?_, .inl rfl, .inr ?_, nofun⟩
    all_goals exact fun _ _ _ _ h => keeps_of_put h fun _ => rfl

def errorSlot : Slot record (Option String) where
  field := record.fields[2]
  get := Partial.error
  put a s := { s with error := some a }
  value _ := Doc.readOption Doc.readText
  keeps := by
    simp only [record, List.forall_mem_cons]
    refine ⟨.inr ?_, .inr ?_, .inl rfl, nofun⟩
    all_goals exact fun _ _ _ _ h => keeps_of_put h fun _ => rfl

theorem record_apart : record.Apart := by
  simp [Record.Apart, record, Field.names]

theorem record_slotted : record.Slotted := by
  simp only [Record.Slotted, record, List.forall_mem_cons]
  exact ⟨⟨_, nodesSlot, rfl⟩, ⟨_, linksSlot, rfl⟩, ⟨_, errorSlot, rfl⟩, nofun⟩

theorem read_of_spelledBy {g : GraphInput} {d : Doc} (h : g.SpelledBy d) (hd : d.Whole)
    {r : Reading} (hr : 3 ≤ r.depth) : GraphInput.read r d = .ok g := by
  obtain ⟨members, rfl, h⟩ := h
  obtain ⟨r', henter, hr'⟩ := Reading.enter_ok hr
  have hnodes : nodesSlot.Told r' (Doc.keyed members) g.nodes (g.nodes = []) := by
    refine nodesSlot.told h.nodes fun d hmem hspelled => ?_
    have hwhole := Whole.of_under hd hmem
    obtain ⟨items, rfl, hitems⟩ := hspelled
    exact readList_ok NodeInput.read_of_spelledBy hitems hwhole hr'
  have hlinks : linksSlot.Told r' (Doc.keyed members) g.links (g.links = []) := by
    refine linksSlot.told h.links fun d hmem hspelled => ?_
    have hwhole := Whole.of_under hd hmem
    obtain ⟨items, rfl, hitems⟩ := hspelled
    exact readList_ok LinkInput.read_of_spelledBy hitems hwhole hr'
  have herror : errorSlot.Told r' (Doc.keyed members) g.error (g.error = none) :=
    errorSlot.told h.error fun d _ hd => hd ▸ Spells.readOption_getD (Spells.text 0) g.error
  refine Record.read_object record_apart record_slotted henter hd ?_ fun s hs => ?_
  · simp only [record, List.forall_mem_cons]
    exact ⟨hnodes.fieldOpen, hlinks.fieldOpen, herror.fieldOpen, nofun⟩
  · have hnodes : s.nodes.getD [] = g.nodes := hnodes.getD_eq record_apart hs
    have hlinks : s.links.getD [] = g.links := hlinks.getD_eq record_apart hs
    have herror : s.error.getD none = g.error := herror.getD_eq record_apart hs
    simp only [record, hnodes, hlinks, herror]

theorem not_repeated_of_read {d : Doc} {r : Reading} {g : GraphInput}
    (h : GraphInput.read r d = .ok g) : ¬ Repeated d := by
  intro hrepeated
  cases hrepeated with
  | graph hd => exact Record.not_repeats_of_read record_apart record_slotted h hd
  | node hitems hitem hd =>
    obtain ⟨r', x, hx⟩ := nodesSlot.item_of_read rfl record_apart h hitems hitem
    exact Record.not_repeats_of_read NodeInput.record_apart NodeInput.record_slotted hx hd
  | link hitems hitem hd =>
    obtain ⟨r', l, hl⟩ := linksSlot.item_of_read rfl record_apart h hitems hitem
    exact Record.not_repeats_of_read LinkInput.record_apart LinkInput.record_slotted hl hd

/-- **Graphs are read whatever their presentation.** A text of an object that spells a graph decodes
to the graph: the members of the object and of its nodes and links may stand in any order and among
unknown ones, a node's line may have either name, and what has its default may be left out. A text
with a known member twice in one of these objects does not decode. -/
theorem ofJson_presented :
    (∀ (g : GraphInput) (d : Doc) (text : List Char), g.SpelledBy d → d.HasText text →
      ofJson text = .ok g) ∧
    ∀ (d : Doc) (text : List Char), Repeated d → d.HasText text →
      ∃ err, ofJson text = .error err := by
  constructor
  · intro g d text hspelled htext
    rw [ofJson, htext.decode]
    exact read_of_spelledBy hspelled htext.whole (by decide)
  · intro d text hrepeated htext
    rw [ofJson, htext.decode]
    cases hread : GraphInput.read .start d with
    | error err => exact ⟨err, rfl⟩
    | ok g => exact absurd hrepeated (not_repeated_of_read hread)

/-- A graph with a loop whose members stand out of order, among others that nobody knows, one of them
a number that no reader could hold; and a graph with both names of a line. -/
theorem ofJson_presented_loop :
    let huge : Numeral := ⟨false, [1], [], some (false, [9, 9, 9])⟩
    let loop : Doc := .ofMembers [("lineNumber", .ofInt (7 : Int64).toInt), ("group", .number huge),
      ("type", .ofString " Loop\n"), ("id", .ofInt (3 : Int64).toInt)]
    let graph : Doc := .ofMembers [("links", .ofList []), ("heap", .ofList [.number huge, .null]),
      ("nodes", .ofList [loop]), ("error", .null)]
    let twice : Doc := .ofMembers [("nodes", .ofList [.ofMembers [("lineno", .null),
      ("id", .ofString "f"), ("lineNumber", .ofInt (7 : Int64).toInt)]])]
    let g : GraphInput := ⟨[⟨.number 3, .loop, "", some 7⟩], [], none⟩
    (g.SpelledBy graph ∧ graph.HasText ('\n' :: graph.write) ∧
      ofJson ('\n' :: graph.write) = .ok g) ∧
    Repeated twice ∧ twice.HasText twice.write ∧ ∃ err, ofJson twice.write = .error err := by
  intro huge loop graph twice g
  have hhuge : huge.Spelled := ⟨by decide, nofun, by decide, by rintro _ _ ⟨⟩; decide⟩
  have hinteger (i : Int64) : (Doc.ofInt i.toInt).Sound := .number (Numeral.spelled_ofInt _)
  have hloop : loop.Sound := .object <| by
    simp only [List.forall_mem_cons]
    exact ⟨hinteger 7, .number hhuge, .text _, hinteger 3, nofun⟩
  have hgraph : graph.Sound := .object <| by
    simp only [List.forall_mem_cons]
    refine ⟨.list nofun, .list ?_, .list (List.forall_mem_singleton.mpr hloop), .null, nofun⟩
    exact List.forall_mem_cons.mpr ⟨.number hhuge, List.forall_mem_singleton.mpr .null⟩
  have htwice : twice.Sound := .object <| by
    refine List.forall_mem_singleton.mpr (.list (List.forall_mem_singleton.mpr (.object ?_)))
    simp only [List.forall_mem_cons]
    exact ⟨.null, .text _, hinteger 7, nofun⟩
  have hkind : NodeKind.loop.IsNamed " Loop\n" := by
    change Text.lower (Text.trim " Loop\n".toList) = NodeKind.loop.name.toList
    decide
  have hspelled : g.SpelledBy graph := by
    refine ⟨_, rfl, .present rfl ⟨_, rfl, .cons ⟨_, rfl, ?_⟩ .nil⟩, .present rfl ⟨_, rfl, .nil⟩,
      .present rfl rfl⟩
    exact ⟨.present rfl rfl, .present rfl ⟨_, rfl, hkind⟩, .absent rfl rfl, .present rfl rfl⟩
  have hblank : ∀ c ∈ ['\n'], isSpace c := List.forall_mem_singleton.mpr rfl
  have htext : graph.HasText ('\n' :: graph.write) :=
    ⟨hgraph.whole, hgraph.hasText_write.spaced.blank hblank⟩
  have hrepeated : Repeated twice := by
    refine .node (List.mem_singleton_self _) (List.mem_singleton_self _) ?_
    exact ⟨["lineno", "lineNumber"], by decide, by decide⟩
  exact ⟨⟨hspelled, htext, ofJson_presented.1 _ _ _ hspelled htext⟩, hrepeated,
    htwice.hasText_write, ofJson_presented.2 _ _ hrepeated htwice.hasText_write⟩

/-- Half of a surrogate pair is no character, so it is refused wherever a text is read: in the name of
an unknown member, and in a text that names no kind. -/
theorem ofJson_halves_refused :
    let half : Quoted := .unpaired
    let unnamed := Doc.named [(half, .null)]
    let node := Doc.named [(.text "id", .ofString "f"), (.text "type", .quoted half)]
    let graph := Doc.named [(.text "nodes", .ofList [.object node .closed])]
    let refused (members : List (Doc × Doc)) (text : String) : Prop :=
      (Doc.object members .closed).HasText text.toList ∧ ∃ err, ofJson text.toList = .error err
    GraphInput.Members ⟨[], [], none⟩ unnamed ∧ refused unnamed "\x7b\"\\ud800\":null\x7d" ∧
    Doc.under ["id"] node = [.ofString "f"] ∧ Doc.under ["type"] node = [.quoted half] ∧
    refused graph "\x7b\"nodes\":[\x7b\"id\":\"f\",\"type\":\"\\ud800\"\x7d]\x7d" := by
  intro half unnamed node graph refused
  have hcode : Piece.Spellings [.ofCode 0xD800] "\\ud800".toList := .cons (.code rfl) .nil
  have hhalf : (Token.quoted half).Lexeme "\"\\ud800\"".toList := .quoted hcode
  have htext (s : String) : (Token.quoted (.text s)).Lexeme (Token.write (.quoted (.text s))) :=
    Token.Sound.lexeme trivial
  refine ⟨⟨.absent rfl rfl, .absent rfl rfl, .absent rfl rfl⟩,
    ⟨⟨?_, ?_⟩, exists_error_of_toOption (by decide +kernel)⟩, rfl, rfl,
    ⟨⟨?_, ?_⟩, exists_error_of_toOption (by decide +kernel)⟩⟩
  · exact .object (List.forall_mem_singleton.mpr .null)
  · exact Spaced.flatten (.cons .openObject (.cons hhalf (.cons .colon (.cons .null
      (.cons .closeObject .nil)))))
  · have hnode : (Doc.object node .closed).Whole :=
      .object (List.forall_mem_cons.mpr ⟨.quoted _, List.forall_mem_singleton.mpr (.quoted _)⟩)
    exact .object (List.forall_mem_singleton.mpr (.list (List.forall_mem_singleton.mpr hnode)))
  · exact Spaced.flatten (.cons .openObject (.cons (htext "nodes") (.cons .colon (.cons .openList
      (.cons .openObject (.cons (htext "id") (.cons .colon (.cons (htext "f") (.cons .comma
      (.cons (htext "type") (.cons .colon (.cons hhalf (.cons .closeObject (.cons .closeList
      (.cons .closeObject .nil)))))))))))))))

end GraphInput

end TracePlayback
