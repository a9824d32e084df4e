import TracePlayback.Proofs.CommandLine.Grammar
import TracePlayback.Proofs.Replay.Frames

/-!
# Every replay ends

A replay with a time limit ends as soon as a frame border has reached it. A replay without one has no
channel that loops, as the command line and the settings give a time limit to every replay that has
one; so each frame either moves a clock that has an end or, with the clock at its end, takes a step
of the few that are left. In neither case does the playback clock overflow before.

* `CommandLine.horizonMs_le`, `CommandLine.loops_of_horizonMs`: a time limit fits a machine word, and
  where there is none no channel loops.
* `Job.prepare_ok`: the limit of a job is that of its command line and of its settings.
* `Follows.ends_by`, `Follows.ends`: how many frames there are at most with a limit and without one.
* `Follows.ending`: why a replay ends, as long as the clock can hold the time.
* `ends_complete`: so every replay ends, and without a limit it ends when all traces are played.
-/
namespace TracePlayback

/-! ## Time limits -/

namespace CommandLine

/-- The number of a group, if it has one, fits a machine word. -/
def Group.Fits : Group → Prop
  | .number _ n => n ≤ maxMs
  | _ => True

theorem Splits.fit {arguments : List Bytes} {gs : List Group} (h : Splits arguments gs) :
    ∀ g ∈ gs, g.Fits := by
  induction h with
  | nil => nofun
  | cons hg _ ih =>
    refine List.forall_mem_cons.mpr ⟨?_, ih⟩
    cases hg with
    | number o hn =>
      obtain ⟨ds, -, -, -, -, hfits⟩ := hn
      exact hfits
    | _ => trivial

theorem horizonMs_le {arguments : List Bytes} {c : CommandLine} (h : parse arguments = .ok c)
    {s : Settings} {limit : Nat} (hlimit : c.horizonMs s = some limit) : limit ≤ maxMs := by
  have huntil : ∀ ms, c.untilMs = some ms → ms ≤ maxMs := by
    intro ms hms
    obtain ⟨gs, hgs, -, rfl⟩ := parse_eq_ok.mp h
    obtain ⟨g, hlast, hnumber⟩ := Option.bind_eq_some_iff.mp hms
    have hfits := hgs.fit g (List.mem_of_mem_filter (List.mem_of_getLast? hlast))
    cases g with
    | number o n => cases hnumber; exact hfits
    | _ => cases hnumber
  unfold horizonMs at hlimit
  split at hlimit
  · rename_i ms hms
    cases hlimit
    exact huntil _ hms
  · split at hlimit
    · cases hlimit; decide
    · cases hlimit

theorem loops_of_horizonMs {c : CommandLine} {s : Settings} (h : c.horizonMs s = none)
    (name : ChannelName) : s.playback.loops name = false := by
  unfold horizonMs at h
  split at h
  · cases h
  · split at h
    · cases h
    · rename_i hloops
      rw [Bool.not_eq_true, Bool.or_eq_false_iff] at hloops
      cases name with
      | live => exact hloops.1
      | ghost => exact hloops.2

end CommandLine

namespace Job

/-- The limit of a job is that of its command line and of its settings, as they are after the command
line has overruled some. -/
theorem prepare_ok {read? : Path → Option Bytes} {userFile : Option Path} {arguments : List Bytes}
    {notes : List Note} {j : Job} (h : prepare read? userFile arguments = (notes, .ok j)) :
    ∃ c, CommandLine.parse arguments = .ok c ∧ j.limit = c.horizonMs j.settings := by
  unfold prepare at h
  cases hc : CommandLine.parse arguments with
  | error e => rw [hc] at h; cases h
  | ok c =>
    rw [hc] at h
    refine ⟨c, rfl, ?_⟩
    cases hs : readSettings read? userFile c.config with
    | error e => simp only [hs] at h; cases h
    | ok r =>
      simp only [hs, Prod.mk.injEq] at h
      obtain ⟨graph, -, h⟩ := bind_eq_ok.mp h.2
      obtain ⟨live, -, h⟩ := bind_eq_ok.mp h
      obtain ⟨ghost, -, h⟩ := bind_eq_ok.mp h
      cases h
      rfl

theorem prepare_of_toOption {read? : Path → Option Bytes} {userFile : Option Path}
    {arguments : List Bytes} {α : Type} {f : Job → α} {a : α}
    (h : (prepare read? userFile arguments).2.toOption.map f = some a) :
    ∃ notes j, prepare read? userFile arguments = (notes, .ok j) ∧ f j = a := by
  generalize prepare read? userFile arguments = prepared at h ⊢
  obtain ⟨notes, outcome⟩ := prepared
  cases outcome with
  | error e => cases h
  | ok j => exact ⟨notes, j, rfl, Option.some.inj h⟩

/-- The entries of a trace can be counted by a machine word, as they can for a trace in memory. -/
def Countable (j : Job) : Prop :=
  ∀ c trace, j.trace? c = some trace → trace.length < UInt64.size

end Job

theorem Part.length_eq {s : PlaybackSettings} {g : Graph} {c : ChannelName} {trace : Option Trace}
    {shown : List Event} {ch : Channel} (h : Part s g c trace shown ch) :
    ch.length = (trace.map Trace.length).getD 0 := by
  rw [Channel.length, h.trace_eq]

theorem Channel.remaining_le (c : Channel) : c.remaining ≤ c.length + 1 := by
  unfold remaining
  split
  · omega
  · exact Nat.zero_le _

namespace Replay

variable {γ : Type} [Generator γ] {s : PlaybackSettings} {g : Graph}
  {traces : ChannelName → Option Trace} {r r' last : Replay γ}

/-! ## How many frames there are -/

/-- How many frames it takes until some time is played. -/
def framesFor (ms : Nat) : Nat := (ms + (frameMs - 1)) / frameMs

theorem framesFor_lt {ms : Nat} (h : 0 < ms) : framesFor (ms - frameMs) < framesFor ms := by
  unfold framesFor frameMs
  omega

/-- With a time limit there are no more frames than fit into it. -/
theorem Follows.ends_by (h : Follows s g traces r) {limit : Nat} (hlimit : r.limit = some limit) :
    ∃ n last ending, Reaches r n last ∧ last.next = .error ending ∧
      (Follows s g traces last ∧ last.limit = some limit) ∧ n ≤ framesFor (limit - r.elapsedMs) := by
  refine ends_of_rank (fun r => framesFor (limit - r.elapsedMs)) ?_ ⟨h, hlimit⟩
  rintro r r' ⟨h, hlimit⟩ hnext
  obtain ⟨-, hbefore, hlogs, helapsed, -⟩ := next_ok hnext
  refine ⟨⟨(h.frame hnext).1, hlogs.limit.trans hlimit⟩, ?_⟩
  rw [helapsed, Nat.sub_add_eq]
  exact framesFor_lt (Nat.sub_pos_of_lt (hbefore limit hlimit))

/-- Without one and without loops there are no more frames than until the clock is at its end, and
then one for each step that is left. -/
theorem Follows.ends (h : Follows s g traces r) (hlimit : r.limit = none)
    (hl : ∀ c, s.loops c = false) :
    ∃ n last ending, Reaches r n last ∧ last.next = .error ending ∧
      (Follows s g traces last ∧ last.limit = none) ∧
      n ≤ framesFor (Clock.last - r.elapsedMs) + r.engine.timeline.remaining := by
  refine ends_of_rank
    (fun r => framesFor (Clock.last - r.elapsedMs) + r.engine.timeline.remaining) ?_ ⟨h, hlimit⟩
  rintro r r' ⟨h, hlimit⟩ hnext
  obtain ⟨hidle, -, hlogs, helapsed, -⟩ := next_ok hnext
  obtain ⟨hframe, sink, htimeline⟩ := h.frame hnext
  refine ⟨⟨hframe, hlogs.limit.trans hlimit⟩, ?_⟩
  have hloops (c : ChannelName) := (h.performing.looping c).trans (hl c)
  have hleft : r'.engine.timeline.remaining =
      (r.engine.timeline.advanceTo (r.elapsedMs + frameMs)).2.remaining := by
    rw [htimeline]; rfl
  rw [hleft, helapsed, Nat.sub_add_eq]
  rcases Nat.lt_or_ge r.elapsedMs Clock.last with hbefore | hend
  · -- the clock moves
    exact Nat.add_lt_add_of_lt_of_le (framesFor_lt (Nat.sub_pos_of_lt hbefore))
      (Timeline.remaining_advanceTo_le h.performing.coherent hloops _)
  · -- the clock is at its end, and all that is pending is due
    obtain ⟨due, hdue⟩ : ∃ due, r.engine.timeline.nextDeadline? = some due := by
      rw [Timeline.isIdle, Option.isNone_eq_false_iff, Option.isSome_iff_exists] at hidle
      exact hidle
    obtain ⟨p, he, rfl⟩ := Option.map_eq_some_iff.mp hdue
    obtain ⟨m, hsince⟩ := h.performing.since
    have hle := hsince.due_le p.1 p.2 (Timeline.earliest?_due he)
    have hstep := Timeline.remaining_advanceTo_lt h.performing.coherent hloops (Nat.le_refl _) hdue hle
    rw [Timeline.advanceTo_min, Nat.min_eq_right (by omega), Nat.sub_eq_zero_of_le hend,
      Nat.zero_sub]
    exact Nat.add_lt_add_left hstep _

omit [Generator γ] in
/-- Why a replay ends, if the clock can hold one frame more. -/
theorem Follows.ending (h : Follows s g traces r) {ending : Ending} (hend : r.next = .error ending)
    (hfit : (r.elapsedMs + frameMs) * 1000000 ≤ Clock.maxNanos) :
    (r.engine.timeline.isIdle = true ∧ ending = .idle) ∨
      ∃ ms, r.limit = some ms ∧ ms ≤ r.elapsedMs ∧ ending = .timeLimit ms := by
  rcases next_error hend with hidle | hlimit | ⟨hover, -⟩
  · exact Or.inl hidle
  · exact Or.inr hlimit
  · rw [h.clock_add_frame] at hover
    omega

theorem framesFor_mono {a b : Nat} (h : a ≤ b) : framesFor a ≤ framesFor b :=
  Nat.div_le_div_right (Nat.add_le_add_right h _)

/-- The replay of a job ends, within its time limit and within the frames that are counted for it. -/
theorem ofJob_ends (j : Job) (random : γ) (hfit : ∀ limit, j.limit = some limit → limit ≤ Clock.last)
    (hloops : j.limit = none → ∀ c, j.settings.playback.loops c = false) :
    ∃ n last ending, Reaches (ofJob j random) n last ∧ last.next = .error ending ∧
      Follows j.settings.playback (.ofInput j.graph) j.trace? last ∧ last.limit = j.limit ∧
      last.elapsedMs = n * frameMs ∧ n < (ofJob j random).maxFrames ∧ ∀ limit, j.limit = some limit → n ≤ framesFor limit := by
  obtain ⟨hstart, h0, hsame⟩ := ofJob_follows j random
  have hwhole : framesFor Clock.last = Clock.last / frameMs + 1 := by decide
  have hplayed {last : Replay γ} {n : Nat} (hreach : Reaches (ofJob j random) n last) :
      last.elapsedMs = n * frameMs := by rw [hreach.elapsed, h0, Nat.zero_add]
  cases hlimit : j.limit with
  | some limit =>
    obtain ⟨n, last, ending, hreach, hend, ⟨hlast, hsame'⟩, hn⟩ := hstart.ends_by (hsame.trans hlimit)
    rw [h0, Nat.sub_zero] at hn
    have hle := framesFor_mono (hfit limit hlimit)
    refine ⟨n, last, ending, hreach, hend, hlast, hsame', hplayed hreach, ?_, ?_⟩
    · unfold maxFrames
      omega
    · rintro _ ⟨⟩
      exact hn
  | none =>
    obtain ⟨n, last, ending, hreach, hend, ⟨hlast, hsame'⟩, hn⟩ :=
      hstart.ends (hsame.trans hlimit) (hloops hlimit)
    rw [h0, Nat.sub_zero] at hn
    have hlive := (ofJob j random).engine.timeline.live.remaining_le
    have hghost := (ofJob j random).engine.timeline.ghost.remaining_le
    refine ⟨n, last, ending, hreach, hend, hlast, hsame', hplayed hreach, ?_, nofun⟩
    unfold Timeline.remaining at hn
    unfold maxFrames
    omega

theorem clock_fits {n : Nat} (h : n ≤ framesFor Clock.last + (UInt64.size + UInt64.size + 4)) :
    (n * frameMs + frameMs) * 1000000 ≤ Clock.maxNanos := by
  have hn : n ≤ 10 ^ 21 := Nat.le_trans h (by decide)
  calc (n * frameMs + frameMs) * 1000000
    _ ≤ (10 ^ 21 * frameMs + frameMs) * 1000000 :=
      Nat.mul_le_mul_right _ (Nat.add_le_add_right (Nat.mul_le_mul_right _ hn) _)
    _ ≤ Clock.maxNanos := by decide

/-! ## The end -/

/-- A channel has played all there is: nothing without a trace, and with one the whole performance,
to its last entry and its one end. -/
def Complete (j : Job) (r : Replay γ) (c : ChannelName) : Prop :=
  (r.engine.timeline.channel c).looping = false ∧ (r.engine.timeline.channel c).due = none ∧
    match j.trace? c with
    | none => eventsOf c r.logged = []
    | some trace =>
      (r.engine.timeline.channel c).cursor = trace.length ∧
        eventsOf c r.logged = (j.settings.playback.performance (.ofInput j.graph) c trace).told c
          (trace.length + 1) ∧
        endsIn (eventsOf c r.logged) = 1

omit [Generator γ] in
theorem Follows.complete {j : Job}
    (h : Follows j.settings.playback (.ofInput j.graph) j.trace? r)
    (hidle : r.engine.timeline.isIdle = true) {c : ChannelName}
    (hl : j.settings.playback.loops c = false) : Complete j r c := by
  have hdue := Timeline.isIdle_iff_due.mp hidle c
  have hpart := h.performing.part c
  refine ⟨(h.performing.looping c).trans hl, hdue, ?_⟩
  cases ht : j.trace? c with
  | none =>
    rw [ht] at hpart
    exact hpart.1
  | some trace =>
    rw [ht] at hpart
    obtain ⟨htold, hend, hcursor⟩ := Performance.Progress.told_of_idle hpart hdue
    exact ⟨hcursor, htold, hend⟩

/-- A replay that ends for a reason of its own is reported as a success. -/
theorem ofArguments_error {read? : Path → Option Bytes} {userFile : Option Path} {random : γ}
    {arguments : List Bytes} {notes : List Note} {j : Job} {ending : Ending}
    (h : Job.prepare read? userFile arguments = (notes, .ok j))
    (hplay : (ofJob j random).play (ofJob j random).maxFrames = (ending, last))
    (hending : ending = .idle ∨ ∃ ms, ending = .timeLimit ms) :
    (Report.ofArguments read? userFile random arguments).error = none := by
  unfold Report.ofArguments
  rw [h]
  simp only [hplay]
  rcases hending with rfl | ⟨ms, rfl⟩
  · rfl
  · rfl

/-- **Every replay ends, and ends complete.** Take any arguments and files that describe a job, and
any source of random numbers. The loop over the frames comes to an end, without the playback clock
overflowing on the way, and it is `play` with the frames that are counted for it. With a time limit
there are no more frames than fit into it. Without one, neither channel loops, and the loop ends only
when both channels are idle: each has shown the whole performance of its trace, and one end. -/
theorem ends_complete (read? : Path → Option Bytes) (userFile : Option Path) (arguments : List Bytes)
    (random : γ) {notes : List Note} {j : Job}
    (h : Job.prepare read? userFile arguments = (notes, .ok j)) (hcount : j.Countable) :
    ∃ frames last ending, Reaches (ofJob j random) frames last ∧ last.next = .error ending ∧
      (∀ m, frames < m → (ofJob j random).play m = (ending, last)) ∧
      frames < (ofJob j random).maxFrames ∧
      (Report.ofArguments read? userFile random arguments).error = none ∧
      (∀ limit, j.limit = some limit →
        frames ≤ framesFor limit ∧ (ending = .idle ∨ ending = .timeLimit limit)) ∧
      (j.limit = none → ending = .idle ∧ ∀ c, Complete j last c) := by
  obtain ⟨c, hparse, hlimit⟩ := Job.prepare_ok h
  have hloops (hnone : j.limit = none) := CommandLine.loops_of_horizonMs (hlimit.symm.trans hnone)
  obtain ⟨n, last, ending, hreach, hend, hlast, hsame, hplayed, hframes, hn⟩ := ofJob_ends j random
    (fun limit hsome => CommandLine.horizonMs_le hparse (hlimit.symm.trans hsome)) hloops
  obtain ⟨hstart, -, -⟩ := ofJob_follows j random
  -- the traces are short enough for the clock
  have hlength (c : ChannelName) :
      ((ofJob j random).engine.timeline.channel c).length < UInt64.size := by
    rw [(hstart.performing.part c).length_eq]
    cases ht : j.trace? c with
    | none => decide
    | some trace => exact hcount c trace ht
  have hlive := hlength .live
  have hghost := hlength .ghost
  have hfit : (last.elapsedMs + frameMs) * 1000000 ≤ Clock.maxNanos := by
    rw [hplayed]
    have hwhole : framesFor Clock.last = Clock.last / frameMs + 1 := by decide
    refine clock_fits ?_
    unfold maxFrames at hframes
    simp only [Timeline.channel] at hlive hghost
    omega
  have hplay (m : Nat) (hm : n < m) := hreach.play hend hm
  rcases hlast.ending hend hfit with ⟨hidle, rfl⟩ | ⟨ms, hms, -, rfl⟩
  · refine ⟨n, last, .idle, hreach, hend, hplay, hframes,
      ofArguments_error h (hplay _ hframes) (Or.inl rfl), fun limit hsome => ⟨hn limit hsome, Or.inl rfl⟩,
      fun hnone => ⟨rfl, fun c => hlast.complete hidle (hloops hnone c)⟩⟩
  · rw [hsame] at hms
    refine ⟨n, last, .timeLimit ms, hreach, hend, hplay, hframes,
      ofArguments_error h (hplay _ hframes) (Or.inr ⟨ms, rfl⟩), fun limit hsome => ?_, fun hnone => ?_⟩
    · obtain rfl := Option.some.inj (hms.symm.trans hsome)
      exact ⟨hn ms hsome, Or.inr rfl⟩
    · rw [hms] at hnone
      cases hnone

/-- A graph of two nodes, a live trace with an entry that lands nowhere, and a recording. -/
def sampleFiles (p : Path) : Option Bytes :=
  let files := [("g", "[[[\"f\",\"function\",\"f\",1],[\"l\",\"loop\",\"l\",2]],[[\"f\",\"l\"]]]"),
    ("l", "[1,9,2]"), ("h", "[[1,0],[2,70]]")]
  (files.find? fun file => file.1.toUTF8.toList = p.bytes).map fun file => file.2.toUTF8.toList

/-- Between two entries of the live trace passes all the time that the clock can show, so there are
more frames than anyone can wait for; still they end. -/
theorem ends_complete_slow :
    let arguments := ["--graph", "g", "--live", "l", "--ghost", "h", "--live-step-ms",
      "18446744073709551615"].map fun argument => argument.toUTF8.toList
    ∃ notes j, Job.prepare sampleFiles none arguments = (notes, .ok j) ∧ j.Countable ∧
      j.limit = none ∧ j.live = some ⟨#[1, 9, 2]⟩ ∧
      ∃ frames last, Reaches (ofJob j (WordSource.mk [7])) frames last ∧
        last.next = .error .idle ∧ ∀ c, Complete j last c := by
  intro arguments
  have hread : ((Job.prepare sampleFiles none arguments).2.toOption.map
      fun j => (j.limit, j.live, j.ghost)) =
        some (none, some ⟨#[1, 9, 2]⟩, some ⟨#[⟨1, 0⟩, ⟨2, 70⟩]⟩) := by decide +kernel
  obtain ⟨notes, j, hprepare, hj⟩ := Job.prepare_of_toOption hread
  simp only [Prod.mk.injEq] at hj
  obtain ⟨hlimit, hlive, hghost⟩ := hj
  have hcount : j.Countable := by
    rintro (_ | _) trace ht
    · rw [Job.trace?, hlive] at ht
      cases ht
      decide
    · rw [Job.trace?, hghost] at ht
      cases ht
      decide
  obtain ⟨frames, last, ending, hreach, hend, -, -, -, -, hcomplete⟩ :=
    ends_complete sampleFiles none arguments (WordSource.mk [7]) hprepare hcount
  obtain ⟨rfl, hchannels⟩ := hcomplete hlimit
  exact ⟨notes, j, hprepare, hcount, hlimit, hlive, frames, last, hreach, hend, hchannels⟩

end Replay
end TracePlayback
