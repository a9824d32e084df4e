import TracePlayback.Proofs.Playback.Firing

/-!
# Entries that resolve to no node

A frame of the tracer that only carries an error has the line -1. No line of a source is negative,
so such an entry is to show nothing. But lines are only looked up: an entry resolves if some node of
the graph carries its line, whatever the line is.

Of the turns of a run (`firings`):

* `Firing.unresolved`: a turn whose entry resolves to no node moves the cursor and the timer, and
  leaves all the rest as it was.
* `Firing.events_eq_nil_iff`: no other entry shows nothing.
* `negative_unresolved`: if no graph of a run has a node on a negative line, no entry with a
  negative line ever resolves.
* `error_frame_resolves`: that has to be asked of the graphs; nothing else keeps an error frame from
  being shown.
-/
namespace TracePlayback

theorem Graph.nodeForLine?_eq_none_iff {g : Graph} {line : Int64} :
    g.nodeForLine? line = none ↔ ∀ node ∈ g.nodes, node.line ≠ some line := by
  simp [nodeForLine?]

/-! ## A turn that plays an entry -/

namespace Firing

/-- The line of the entry that the turn plays, if it plays one. -/
def line? (x : Firing) : Option Int64 := do (← x.channel.trace).lineAt? (← x.channel.next?)

variable {x : Firing} {line : Int64}

theorem after_eq (hd : x.channel.due = some x.due) (hl : x.line? = some line) :
    ∃ trace i, trace.lineAt? i = some line ∧
      x.before.fire x.name x.due =
        (let played := x.channel.play x.before.settings x.before.graph trace i x.due
        (played.1.map fun step => ⟨x.name, x.due, step⟩,
          { (x.before.setChannel x.name played.2).atTime (max x.before.now x.due) with
            sink := x.before.sinkAfter played.1 })) := by
  simp only [line?, Option.bind_eq_bind, Option.bind_eq_some_iff] at hl
  obtain ⟨trace, ht, i, hi, hline⟩ := hl
  refine ⟨trace, i, hline, ?_⟩
  have hstep := Channel.fire?_eq (s := x.before.settings) (g := x.before.graph) hd ht
    (Nat.le_refl x.due)
  rw [hi] at hstep
  have hfire := Timeline.fire_eq hd
  unfold channel at hstep
  rw [hstep] at hfire
  exact hfire

/-- Only the channel's cursor and timer move, and the clock reaches the time of the step. -/
theorem unresolved (hd : x.channel.due = some x.due) (hl : x.line? = some line)
    (hg : x.before.graph.nodeForLine? line = none) :
    x.events = [] ∧ ∃ cursor due,
      x.after = (x.before.setChannel x.name
        { x.channel with cursor := cursor, lastAdvance := some x.due, due := some due }).atTime
          (max x.before.now x.due) := by
  obtain ⟨trace, i, hline, hfire⟩ := after_eq hd hl
  have hnone : trace.landing? x.before.graph i = none := by simp [Trace.landing?, hline, hg]
  simp only [Channel.play_eq, hnone, Option.map_none, Option.getD_none, Option.elim_none,
    List.map_nil] at hfire
  refine ⟨by rw [events, hfire], i + 1,
    Clock.after x.due (trace.delayAfter x.before.settings i), ?_⟩
  rw [after, hfire]
  -- nothing is shown, so nothing sounds
  cases x.name <;> simp [Timeline.sinkAfter, Timeline.atTime, Timeline.setChannel]

/-- An entry shows something exactly if some node of the graph carries its line. -/
theorem events_eq_nil_iff (hd : x.channel.due = some x.due) (hl : x.line? = some line) :
    x.events = [] ↔ ∀ node ∈ x.before.graph.nodes, node.line ≠ some line := by
  rw [← Graph.nodeForLine?_eq_none_iff]
  refine ⟨fun h => ?_, fun h => (unresolved hd hl h).1⟩
  obtain ⟨trace, i, hline, hfire⟩ := after_eq hd hl
  cases hg : x.before.graph.nodeForLine? line with
  | none => rfl
  | some node =>
    have hsome : trace.landing? x.before.graph i = some node := by simp [Trace.landing?, hline, hg]
    rw [events, hfire] at h
    simp [Channel.play_eq, hsome, Step.ofLanding] at h

end Firing

/-! ## Negative lines -/

/-- No node is on a negative line. -/
def Graph.SourceLines (g : Graph) : Prop :=
  ∀ node ∈ g.nodes, ∀ line, node.line = some line → 0 ≤ line

theorem Graph.SourceLines.nodeForLine? {g : Graph} (h : g.SourceLines) {line : Int64}
    (hneg : line < 0) : g.nodeForLine? line = none := by
  rw [nodeForLine?_eq_none_iff]
  intro node hn hline
  exact absurd hneg (Int64.not_lt.mpr (h node hn line hline))

namespace Timeline

/-- **Error frames never resolve** where graphs keep to the lines of a source. Over every run whose
graphs have no node on a negative line, each turn that plays an entry with a negative line shows
nothing and sounds nothing, and of the timeline only the cursor and the timer of the channel move
while the clock reaches the time of the step. No other turn stands in for it: the events of the run
are those of its turns. -/
theorem negative_unresolved (s : PlaybackSettings) (a : AudioSettings) (k : Sink)
    (ops : List Operation) (hgraphs : ∀ g, .setGraph g ∈ ops → g.SourceLines) :
    (((new s a k).calls ops).flatMap (·.2)) = ((new s a k).firings ops).flatMap Firing.events ∧
      ∀ x ∈ (new s a k).firings ops, ∀ line, x.line? = some line → line < 0 →
        x.events = [] ∧ ∃ cursor due,
          x.after = (x.before.setChannel x.name
            { x.channel with cursor := cursor, lastAdvance := some x.due, due := some due }).atTime
              (max x.before.now x.due) := by
  refine ⟨calls_firings _ ops, fun x hx line hl hneg => ?_⟩
  have hinv := firings_invariant (P := fun t => t.graph.SourceLines) (fun _ _ h => h)
    (fun t name due h he => by rw [(fire_frame (earliest?_due he)).2.1]; exact h)
    ops ?_ (t := new s a k) (by intro node hn; cases hn) x hx
  · exact Firing.unresolved hinv.2 hl (hinv.1.nodeForLine? hneg)
  · intro op hop t ht
    rw [edit_graph]
    cases op with
    | setGraph g => exact hgraphs g hop
    | _ => exact ht

/-- An error frame between two lines: it is played, and shows nothing. -/
theorem pair_unresolved :
    let ops := [.setGraph .pair, .bind .live (some (.live (.ofEntries
      [.line 1, .frame ⟨-1, none, some "boom"⟩, .line 2]))), .advanceTo 2000]
    (∀ g, .setGraph g ∈ ops → g.SourceLines) ∧
      (∃ x ∈ (new {} {} .silent).firings ops, x.line? = some (-1)) ∧
      ∀ x ∈ (new {} {} .silent).firings ops, ∀ line, x.line? = some line → line < 0 →
        x.events = [] := by
  intro ops
  have hgraphs : ∀ g, .setGraph g ∈ ops → g.SourceLines := by
    intro g hg
    obtain rfl : g = .pair := by simpa [ops] using hg
    intro node hn line hline
    simp only [Graph.pair, List.mem_cons, List.not_mem_nil, or_false] at hn
    rcases hn with rfl | rfl
    · cases hline; decide
    · cases hline; decide
  have hplayed : ((new {} {} .silent).firings ops).any (fun x => x.line? = some (-1)) = true := by
    decide
  refine ⟨hgraphs, by simpa using hplayed, fun x hx line hl hneg => ?_⟩
  exact ((negative_unresolved {} {} .silent ops hgraphs).2 x hx line hl hneg).1

/-- An error frame, played on a graph that has a node on its line: the node is visited. -/
theorem error_frame_resolves :
    let ops := [.setGraph (.ofInput ⟨[⟨.text "f", .function, "f", some (-1)⟩], [], none⟩),
      .bind .live (some (.live (.ofEntries [.frame ⟨-1, none, some "boom"⟩])))]
    ∃ x ∈ (new {} {} .silent).firings ops, x.line? = some (-1) ∧
      x.events = [⟨.live, 0, .visit ⟨"f"⟩ .function false⟩] := by
  intro ops
  have h : ((new {} {} .silent).firings ops).any (fun x => x.line? = some (-1) ∧
      x.events = [⟨.live, 0, .visit ⟨"f"⟩ .function false⟩]) = true := by decide
  simpa using h

end Timeline
end TracePlayback
