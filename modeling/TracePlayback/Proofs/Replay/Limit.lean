import TracePlayback.Proofs.Replay.Ending

/-!
# The time limit is looked at between frames

A frame is played as a whole, so a replay stops at the first frame border that its limit does not lie
behind (`border`). That is less than a frame later than the limit, and the limit itself where that is
a border: the limit of a replay that loops is one, if it is not told another.

* `UpTo`: a channel has taken all the steps that are stamped by a time, and maybe some more.
* `Follows.upTo`, `Follows.abreast`: that is so at the limit, whether the replay was stopped there or
  has run idle.
* `limit_at_border`: nothing that is due by the limit is missing from the log, and nothing in it is
  later than the border.
* `limit_overrun`: between the limit and the border there may be events.
-/
namespace TracePlayback.Replay

variable {γ : Type} {s : PlaybackSettings} {g : Graph} {traces : ChannelName → Option Trace}
  {r last : Replay γ}

/-! ## Borders -/

/-- The first frame border that a time does not lie behind. -/
def border (ms : Nat) : Nat := framesFor ms * frameMs

theorem border_lt (ms : Nat) : border ms < ms + frameMs := by
  unfold border framesFor frameMs
  omega

theorem border_eq_of_dvd {ms : Nat} (h : frameMs ∣ ms) : border ms = ms := by
  obtain ⟨frames, rfl⟩ := h
  unfold border framesFor frameMs
  omega

example : border CommandLine.loopHorizonMs = CommandLine.loopHorizonMs := by decide

/-! ## What is logged -/

/-- The log of a channel is the beginning of its performance, with all the steps that are stamped by
a time. Of the last millisecond of the clock nothing is said. -/
def UpTo (limit : Nat) (j : Job) (r : Replay γ) (c : ChannelName) : Prop :=
  match j.trace? c with
  | none => eventsOf c r.logged = []
  | some trace =>
    let p := j.settings.playback.performance (.ofInput j.graph) c trace
    ∃ n, eventsOf c r.logged = p.told c n ∧ ∀ k time steps, p.step? k = some (time, steps) →
      time ≤ limit → time < Clock.last → k < n

theorem Follows.upTo {j : Job} {limit : Nat}
    (h : Follows j.settings.playback (.ofInput j.graph) j.trace? r)
    (ha : r.engine.timeline.Abreast limit) (c : ChannelName) : UpTo limit j r c := by
  unfold UpTo
  have hpart := h.performing.part c
  cases ht : j.trace? c with
  | none =>
    rw [ht] at hpart
    exact hpart.1
  | some trace =>
    rw [ht] at hpart
    exact Performance.Progress.told_of_abreast hpart (Nat.zero_le _) ha

theorem Follows.abreast (h : Follows s g traces r) {limit : Nat}
    (hend : r.engine.timeline.isIdle = true ∨ limit ≤ r.elapsedMs) :
    r.engine.timeline.Abreast limit := by
  rcases hend with hidle | hle
  · refine Timeline.hasBacklog_eq_false_iff.mpr fun c due hdue => ?_
    rw [Timeline.isIdle_iff_due.mp hidle c] at hdue
    cases hdue
  · exact Timeline.hasBacklog_mono (by omega) h.performing.abreast

/-! ## The limit -/

variable [Generator γ]

/-- **The limit is met at a frame border.** Take any arguments and files that describe a job with a
time limit, and any source of random numbers. The replay stops at the limit, or before it with nothing
left to play. Each channel has then logged all of its performance that is stamped by the limit, the
last millisecond of the clock excepted; and neither the log nor the clock goes further than the frame
border of the limit, which is less than a frame later, and is the limit itself if that is one. -/
theorem limit_at_border (read? : Path → Option Bytes) (userFile : Option Path)
    (arguments : List Bytes) (random : γ) {notes : List Note} {j : Job} {limit : Nat}
    (h : Job.prepare read? userFile arguments = (notes, .ok j)) (hlimit : j.limit = some limit) :
    ∃ last ending, (ofJob j random).play (ofJob j random).maxFrames = (ending, last) ∧
      (ending = .idle ∨ ending = .timeLimit limit) ∧ (∀ c, UpTo limit j last c) ∧
      (∀ e ∈ last.logged, e.time ≤ border limit) ∧ last.elapsedMs ≤ border limit ∧
      last.engine.timeline.now ≤ border limit ∧ border limit < limit + frameMs ∧
      (frameMs ∣ limit → border limit = limit) := by
  obtain ⟨c, hparse, hsame⟩ := Job.prepare_ok h
  have hle : limit ≤ Clock.last := CommandLine.horizonMs_le hparse (hsame.symm.trans hlimit)
  obtain ⟨n, last, ending, hreach, hend, hlast, hsame', hplayed, hframes, hn⟩ := ofJob_ends j random
    (fun other hother => by cases hlimit.symm.trans hother; exact hle)
    (fun hnone => by cases hlimit.symm.trans hnone)
  have hborder : last.elapsedMs ≤ border limit := by
    rw [hplayed]
    exact Nat.mul_le_mul_right _ (hn limit hlimit)
  have hfit : (last.elapsedMs + frameMs) * 1000000 ≤ Clock.maxNanos := by
    rw [hplayed]
    exact clock_fits (Nat.le_trans (hn limit hlimit)
      (Nat.le_trans (framesFor_mono hle) (Nat.le_add_right _ _)))
  have hstamped (e : Event) (he : e ∈ last.logged) : e.time ≤ border limit :=
    Nat.le_trans (hlast.performing.stamped e he) hborder
  have hnow : last.engine.timeline.now ≤ border limit := by
    rw [hlast.performing.now]
    exact Nat.le_trans (Nat.min_le_left _ _) hborder
  have hplay := hreach.play hend hframes
  rcases hlast.ending hend hfit with ⟨hidle, rfl⟩ | ⟨ms, hms, hreached, rfl⟩
  · exact ⟨last, .idle, hplay, Or.inl rfl, fun c => hlast.upTo (hlast.abreast (Or.inl hidle)) c,
      hstamped, hborder, hnow, border_lt limit, border_eq_of_dvd⟩
  · obtain rfl : limit = ms := Option.some.inj (hlimit.symm.trans (hsame'.symm.trans hms))
    exact ⟨last, .timeLimit limit, hplay, Or.inr rfl,
      fun c => hlast.upTo (hlast.abreast (Or.inr hreached)) c,
      hstamped, hborder, hnow, border_lt limit, border_eq_of_dvd⟩

/-- A replay that loops and is not told a limit: its limit is a border, and nothing is later. -/
theorem limit_at_border_loop :
    let arguments := ["--graph", "g", "--live", "l", "--loop"].map fun a => a.toUTF8.toList
    ∃ notes j, Job.prepare sampleFiles none arguments = (notes, .ok j) ∧ j.limit = some 30000 ∧
      ∃ last ending, (ofJob j (WordSource.mk [7])).play (ofJob j (WordSource.mk [7])).maxFrames =
          (ending, last) ∧ (∀ c, UpTo 30000 j last c) ∧
        (∀ e ∈ last.logged, e.time ≤ 30000) ∧ last.engine.timeline.now ≤ 30000 := by
  intro arguments
  have hread : ((Job.prepare sampleFiles none arguments).2.toOption.map fun j => j.limit) =
      some (some 30000) := by decide +kernel
  obtain ⟨notes, j, hprepare, hlimit⟩ := Job.prepare_of_toOption hread
  obtain ⟨last, ending, hplay, -, hupTo, hstamped, -, hnow, -, hborder⟩ :=
    limit_at_border sampleFiles none arguments (WordSource.mk [7]) hprepare hlimit
  rw [hborder (by decide)] at hstamped hnow
  exact ⟨notes, j, hprepare, hlimit, last, ending, hplay, hupTo, hstamped, hnow⟩

/-- A limit inside a frame: at 5 ms the frame to 16 ms has begun, and what is due at 12 ms is played
and logged. -/
theorem limit_overrun :
    let arguments := ["--graph", "g", "--live", "l", "--live-step-ms", "6", "--until-ms", "5"].map
      fun a => a.toUTF8.toList
    ∃ notes j, Job.prepare sampleFiles none arguments = (notes, .ok j) ∧ j.limit = some 5 ∧
      ∃ last ending, (ofJob j (WordSource.mk [7])).play (ofJob j (WordSource.mk [7])).maxFrames =
          (ending, last) ∧ (∃ e ∈ last.logged, 5 < e.time) ∧ 5 < last.engine.timeline.now := by
  intro arguments
  have hread : ((Job.prepare sampleFiles none arguments).2.toOption.map fun j =>
      let start := ofJob j (WordSource.mk [7])
      let last := (start.play start.maxFrames).2
      (j.limit, last.logged.map Event.time, last.engine.timeline.now)) =
        some (some 5, [0, 12, 12], 16) := by decide +kernel
  obtain ⟨notes, j, hprepare, hj⟩ := Job.prepare_of_toOption hread
  cases hplay : (ofJob j (WordSource.mk [7])).play (ofJob j (WordSource.mk [7])).maxFrames with
  | mk ending last =>
    simp only [hplay, Prod.mk.injEq] at hj
    obtain ⟨hlimit, htimes, hnow⟩ := hj
    have hmem : 12 ∈ last.logged.map Event.time := by rw [htimes]; decide
    obtain ⟨e, he, htime⟩ := List.mem_map.mp hmem
    exact ⟨notes, j, hprepare, hlimit, last, ending, hplay, ⟨e, he, by omega⟩, by omega⟩

end TracePlayback.Replay
