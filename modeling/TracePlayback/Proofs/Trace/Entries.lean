import TracePlayback.Trace.Wire
import TracePlayback.Proofs.Json.Members
import TracePlayback.Proofs.Json.Spelling

/-!
# Live traces, entry by entry

An entry is spelled by the digits of its line, or by an object with the members of a frame in any
order and among others (`LiveEntry.SpelledBy`). It is buffered before it is fitted to either, so the
other members must be held: their numbers have a value, their texts are texts, and they do not nest
too deep. A document is unfit (`LiveEntry.Unfit`) if it is null, a truth value, a text or a number
other than such digits (a minus before zero is no integer), or an object that has a frame's member
twice or with a value of another type. A list is neither: a frame can also be read from the list of
its values, so some lists decode as entries and some do not, and nothing is said of them here.

* `LiveTrace.ofJson_entrywise`: a text of a list whose items spell entries decodes to the lines of
  the entries in order, and no text of a list with an unfit item decodes.
* `LiveTrace.ofJson_refused`: what the other members must be held for, and the minus before zero.
-/
namespace TracePlayback

open Json

/-! ## What the documents say -/

/-- The members of an object spell a frame. -/
structure TraceFrame.Members (f : TraceFrame) (members : List (Doc × Doc)) : Prop where
  line : Doc.Tells ["line"] members (f.line = -1) (· = .ofInt f.line.toInt)
  event : Doc.Tells ["event"] members (f.event = none)
    (· = (f.event.map Doc.ofString).getD .null)
  error : Doc.Tells ["error"] members (f.error = none)
    (· = (f.error.map Doc.ofString).getD .null)

namespace LiveEntry

/-- The document is the line, or an object that spells the frame. -/
inductive SpelledBy : LiveEntry → Doc → Prop
  | line (n : Int64) : SpelledBy (.line n) (.ofInt n.toInt)
  | frame {f : TraceFrame} {members : List (String × Doc)} (h : f.Members (Doc.keyed members)) :
      SpelledBy (.frame f) (.ofMembers members)

/-- The document is none that an entry could have. -/
inductive Unfit : Doc → Prop
  | null : Unfit .null
  | bool (b : Bool) : Unfit (.bool b)
  | quoted (q : Quoted) : Unfit (.quoted q)
  | number {x : Numeral} (h : ∀ n : Int64, x ≠ .ofInt n.toInt) : Unfit (.number x)
  | repeated {d : Doc} (h : d.Repeats [["line"], ["event"], ["error"]]) : Unfit d
  | line {members : List (Doc × Doc)} {ending : Ending} {d : Doc}
      (hd : d ∈ Doc.under ["line"] members) (h : ∀ n : Int64, d ≠ .ofInt n.toInt) :
      Unfit (.object members ending)
  | text {members : List (Doc × Doc)} {ending : Ending} {name : String} {d : Doc}
      (hname : name ∈ ["event", "error"]) (hd : d ∈ Doc.under [name] members) (hnull : d ≠ .null)
      (h : ∀ s, d ≠ .ofString s) : Unfit (.object members ending)

end LiveEntry

/-! ## Frames -/

namespace TraceFrame

def lineSlot : Slot record Int64 where
  field := record.fields[0]
  get := Partial.line
  put a s := { s with line := some a }
  value _ := Doc.readInt64
  keeps := by
    simp only [record, List.forall_mem_cons]
    refine ⟨.inl rfl, .inr ?_, .inr ?_, nofun⟩
    all_goals exact fun _ _ _ _ h => keeps_of_put h fun _ => rfl

def eventSlot : Slot record (Option String) where
  field := record.fields[1]
  get := Partial.event
  put a s := { s with event := some a }
  value _ := Doc.readOption Doc.readText
  keeps := by
    simp only [record, List.forall_mem_cons]
    refine ⟨.inr ?_, .inl rfl, .inr ?_, nofun⟩
    all_goals exact fun _ _ _ _ h => keeps_of_put h fun _ => rfl

def errorSlot : Slot record (Option String) where
  field := record.fields[2]
  get := Partial.error
  put a s := { s with error := some a }
  value _ := Doc.readOption Doc.readText
  keeps := by
    simp only [record, List.forall_mem_cons]
    refine ⟨.inr ?_, .inr ?_, .inl rfl, nofun⟩
    all_goals exact fun _ _ _ _ h => keeps_of_put h fun _ => rfl

theorem record_apart : record.Apart := by
  simp [Record.Apart, record, Field.names]

theorem record_slotted : record.Slotted := by
  simp only [Record.Slotted, record, List.forall_mem_cons]
  exact ⟨⟨_, lineSlot, rfl⟩, ⟨_, eventSlot, rfl⟩, ⟨_, errorSlot, rfl⟩, nofun⟩

theorem read_of_members {f : TraceFrame} {members : List (String × Doc)}
    (h : f.Members (Doc.keyed members)) (hd : (Doc.ofMembers members).Whole) {r : Reading}
    (hr : 1 ≤ r.depth) : record.read r (.ofMembers members) = .ok f := by
  obtain ⟨r', henter, -⟩ := Reading.enter_ok hr
  have hline : lineSlot.Told r' (Doc.keyed members) f.line (f.line = -1) :=
    lineSlot.told h.line fun d _ hd => hd ▸ Doc.readInt64_ofInt f.line
  have hevent : eventSlot.Told r' (Doc.keyed members) f.event (f.event = none) :=
    eventSlot.told h.event fun d _ hd => hd ▸ Spells.readOption_getD (Spells.text 0) f.event
  have herror : errorSlot.Told r' (Doc.keyed members) f.error (f.error = none) :=
    errorSlot.told h.error fun d _ hd => hd ▸ Spells.readOption_getD (Spells.text 0) f.error
  refine Record.read_object record_apart record_slotted henter hd ?_ fun s hs => ?_
  · simp only [record, List.forall_mem_cons]
    exact ⟨hline.fieldOpen, hevent.fieldOpen, herror.fieldOpen, nofun⟩
  · have hline : s.line.getD (-1) = f.line := hline.getD_eq record_apart hs
    have hevent : s.event.getD none = f.event := hevent.getD_eq record_apart hs
    have herror : s.error.getD none = f.error := herror.getD_eq record_apart hs
    simp only [record, hline, hevent, herror]

end TraceFrame

/-! ## Entries -/

namespace LiveEntry

theorem read_of_spelledBy {x : LiveEntry} {d : Doc} (h : x.SpelledBy d) {n : Nat} (hd : d.Held n)
    {r : Reading} (hn : n ≤ r.depth) (hr : 1 ≤ r.depth) : LiveEntry.read r d = .ok x := by
  have hentry : ofDoc? { r with buffered := true } d = some x := by
    cases h with
    | line n => rw [ofDoc?, Doc.readInt64_ofInt]
    | frame h =>
      rw [ofDoc?, TraceFrame.read_of_members h hd.sound.whole (by exact hr)]
      rfl
  rw [read, hd.buffer_ok hn, ok_bind, hentry]
  rfl

theorem cases_of_read {d : Doc} (hd : d.Whole) {r : Reading} {x : LiveEntry}
    (h : LiveEntry.read r d = .ok x) :
    (∃ n : Int64, d = .ofInt n.toInt) ∨ ∃ r' f, TraceFrame.record.read r' d = .ok f := by
  rw [read] at h
  obtain ⟨-, -, h⟩ := bind_eq_ok.mp h
  rw [ofDoc?] at h
  cases hline : d.readInt64 with
  | ok n => exact .inl ⟨n, Doc.eq_ofInt_of_readInt64 hd hline⟩
  | error _ =>
    cases hframe : TraceFrame.record.read { r with buffered := true } d with
    | ok f => exact .inr ⟨_, f, hframe⟩
    | error _ =>
      simp only [hline, hframe] at h
      cases h

/-- What has been read is not unfit. -/
theorem not_unfit_of_read {d : Doc} (hd : d.Whole) {r : Reading} {x : LiveEntry}
    (h : LiveEntry.read r d = .ok x) : ¬ Unfit d := by
  intro hunfit
  rcases cases_of_read hd h with ⟨n, rfl⟩ | ⟨r', f, hf⟩
  · cases hunfit with
    | number h => exact h n rfl
    | repeated h => exact h
  · cases hunfit with
    | null | bool | quoted | number =>
      rcases Record.container_of_read hf with ⟨_, _, h⟩ | ⟨_, _, h⟩ <;> cases h
    | repeated h =>
      exact Record.not_repeats_of_read TraceFrame.record_apart TraceFrame.record_slotted hf h
    | line hline hother =>
      obtain ⟨_, n, hn⟩ := TraceFrame.lineSlot.member_of_read TraceFrame.record_apart hf hline
      exact hother n (Doc.eq_ofInt_of_readInt64 (Whole.of_under hd hline) hn)
    | @text members ending name d hname htext hnull hother =>
      obtain ⟨o, ho⟩ : ∃ o, Doc.readOption Doc.readText d = .ok o := by
        rcases List.mem_pair.mp hname with rfl | rfl
        · obtain ⟨_, ho⟩ := TraceFrame.eventSlot.member_of_read TraceFrame.record_apart hf htext
          exact ho
        · obtain ⟨_, ho⟩ := TraceFrame.errorSlot.member_of_read TraceFrame.record_apart hf htext
          exact ho
      exact (eq_of_readOption_readText ho).elim hnull fun ⟨s, hs⟩ => hother s hs

end LiveEntry

/-! ## Traces -/

namespace LiveTrace

/-- **Live traces are read entry by entry.** A text of a list whose items spell entries decodes to
their lines in order, if the items are held: in the list of the trace, they may nest one container
less than a text may. A text of a list with an unfit item does not decode. -/
theorem ofJson_entrywise :
    (∀ (entries : List LiveEntry) (items : List Doc) (text : List Char),
      List.Forall₂ (fun x d => x.SpelledBy d ∧ d.Held 126) entries items →
      (Doc.ofList items).HasText text →
      ofJson text = .ok ⟨(entries.map LiveEntry.toLine).toArray⟩) ∧
    ∀ (items : List Doc) (text : List Char), (∃ d ∈ items, LiveEntry.Unfit d) →
      (Doc.ofList items).HasText text → ∃ err, ofJson text = .error err := by
  constructor
  · intro entries items text hspelled htext
    have hentries : Doc.readList LiveEntry.read .start (.ofList items) = .ok entries :=
      readList_ok (fun hx _ _ hr => LiveEntry.read_of_spelledBy hx.1 hx.2 hr (by omega)) hspelled
        htext.whole (Nat.le_refl 127)
    rw [ofJson, htext.decode, LiveTrace.read, hentries]
    rfl
  · intro items text ⟨d, hd, hunfit⟩ htext
    rw [ofJson, htext.decode]
    cases hread : LiveTrace.read .start (.ofList items) with
    | error err => exact ⟨err, rfl⟩
    | ok t =>
      obtain ⟨entries, hentries, -⟩ := bind_eq_ok.mp hread
      obtain ⟨r', x, hx⟩ := item_of_readList hentries hd
      exact absurd hunfit (LiveEntry.not_unfit_of_read (htext.whole.of_list d hd) hx)

/-- A trace of a line, a frame whose members stand among others and a frame without a line; and a
trace with a line that is a text. -/
theorem ofJson_entrywise_mixed :
    let stack : Doc :=
      .ofList [.ofMembers [("x", .null)], .bool true, .number ⟨true, [0], [], none⟩]
    let call : Doc := .ofMembers [("stack", stack), ("event", .ofString "call"),
      ("line", .ofInt (4 : Int64).toInt), ("error", .null)]
    let items : List Doc := [.ofInt (2 : Int64).toInt, call, .ofMembers [("error", .ofString "e")]]
    let entries : List LiveEntry :=
      [.line 2, .frame ⟨4, some "call", none⟩, .frame ⟨-1, none, some "e"⟩]
    let wrong : List Doc := [.ofMembers [("line", .ofString "4")]]
    (List.Forall₂ (fun x d => x.SpelledBy d ∧ d.Held 126) entries items ∧
      (Doc.ofList items).HasText (Doc.ofList items).write ∧
      ofJson (Doc.ofList items).write = .ok ⟨#[2, 4, -1]⟩) ∧
    (∃ d ∈ wrong, LiveEntry.Unfit d) ∧ (Doc.ofList wrong).HasText (Doc.ofList wrong).write ∧
      ∃ err, ofJson (Doc.ofList wrong).write = .error err := by
  intro stack call items entries wrong
  have hzero : (Doc.number ⟨true, [0], [], none⟩).Held 124 :=
    .number 124 ⟨by decide, fun _ => rfl, nofun, nofun⟩ rfl
  have hstack : stack.Held 125 := .list <| by
    simp only [List.forall_mem_cons]
    exact ⟨.object (List.forall_mem_singleton.mpr (.null _)), .bool _ _, hzero, nofun⟩
  have hcall : call.Held 126 := .object <| by
    simp only [List.forall_mem_cons]
    exact ⟨hstack, .text _ _, .integer _ 4, .null _, nofun⟩
  have hfailed : (Doc.ofMembers [("error", .ofString "e")]).Held 126 :=
    .object (List.forall_mem_singleton.mpr (.text _ _))
  have hspelled : List.Forall₂ (fun x d => x.SpelledBy d ∧ d.Held 126) entries items := by
    refine .cons ⟨.line 2, .integer _ 2⟩
      (.cons ⟨.frame ?_, hcall⟩ (.cons ⟨.frame ?_, hfailed⟩ .nil))
    · exact ⟨.present rfl rfl, .present rfl rfl, .present rfl rfl⟩
    · exact ⟨.absent rfl rfl, .absent rfl rfl, .present rfl rfl⟩
  have hitems : (Doc.ofList items).Sound := by
    refine Doc.Held.sound (n := 127) (.list ?_)
    exact List.forall_mem_cons.mpr
      ⟨.integer _ 2, List.forall_mem_cons.mpr ⟨hcall, List.forall_mem_singleton.mpr hfailed⟩⟩
  have hwrong : (Doc.ofList wrong).Sound :=
    .list (List.forall_mem_singleton.mpr (.object (List.forall_mem_singleton.mpr (.text _))))
  have hunfit : ∃ d ∈ wrong, LiveEntry.Unfit d :=
    ⟨_, List.mem_singleton_self _, .line (d := .ofString "4") (List.mem_singleton_self _) nofun⟩
  exact ⟨⟨hspelled, hitems.hasText_write,
    ofJson_entrywise.1 entries items _ hspelled hitems.hasText_write⟩,
    hunfit, hwrong.hasText_write, ofJson_entrywise.2 wrong _ hunfit hwrong.hasText_write⟩

/-- Frames whose only member is unknown, and is a number beyond all doubles or a text with half of a
surrogate pair, and a minus before zero: none of them is read. -/
theorem ofJson_refused :
    let huge : Doc := .number ⟨false, [1], [], some (false, [9, 9, 9])⟩
    let half : Doc := .quoted .unpaired
    let refused (item : Doc) (text : String) : Prop :=
      (Doc.ofList [item]).HasText text.toList ∧ ∃ err, ofJson text.toList = .error err
    TraceFrame.Members ⟨-1, none, none⟩ (Doc.keyed [("x", huge)]) ∧
    refused (.ofMembers [("x", huge)]) "[\x7b\"x\":1e999\x7d]" ∧
    TraceFrame.Members ⟨-1, none, none⟩ (Doc.keyed [("x", half)]) ∧
    refused (.ofMembers [("x", half)]) "[\x7b\"x\":\"\\ud800\"\x7d]" ∧
    refused (.number ⟨true, [0], [], none⟩) "[-0]" := by
  intro huge half refused
  have hmembers (d : Doc) : TraceFrame.Members ⟨-1, none, none⟩ (Doc.keyed [("x", d)]) :=
    ⟨.absent rfl rfl, .absent rfl rfl, .absent rfl rfl⟩
  have hhuge : huge.Sound := .number ⟨by decide, nofun, by decide, by rintro _ _ ⟨⟩; decide⟩
  have hzero : Numeral.Spelled ⟨true, [0], [], none⟩ := ⟨by decide, fun _ => rfl, nofun, nofun⟩
  refine ⟨hmembers huge, ⟨?_, exists_error_of_toOption (by decide +kernel)⟩, hmembers half,
    ⟨?_, exists_error_of_toOption (by decide +kernel)⟩,
    ⟨?_, exists_error_of_toOption (by decide +kernel)⟩⟩
  · have hframe : (Doc.ofMembers [("x", huge)]).Sound :=
      .object (List.forall_mem_singleton.mpr hhuge)
    have hwrite : (Doc.ofList [.ofMembers [("x", huge)]]).write =
        "[\x7b\"x\":1e999\x7d]".toList := by decide +kernel
    exact hwrite ▸ (Doc.Sound.list (List.forall_mem_singleton.mpr hframe)).hasText_write
  · have hkey : (Token.quoted (.text "x")).Lexeme "\"x\"".toList := Token.Sound.lexeme trivial
    have hcode : Piece.Spellings [.ofCode 0xD800] "\\ud800".toList := .cons (.code rfl) .nil
    have hhalf : (Token.quoted .unpaired).Lexeme "\"\\ud800\"".toList := .quoted hcode
    have hframe : (Doc.object (Doc.named [(.text "x", half)]) .closed).Whole :=
      .object (List.forall_mem_singleton.mpr (.quoted .unpaired))
    exact ⟨.list (List.forall_mem_singleton.mpr hframe),
      Spaced.flatten (.cons .openList (.cons .openObject (.cons hkey (.cons .colon
        (.cons hhalf (.cons .closeObject (.cons .closeList .nil)))))))⟩
  · exact (Doc.Sound.list (List.forall_mem_singleton.mpr (.number hzero))).hasText_write

end LiveTrace
end TracePlayback
