import TracePlayback.Host
import TracePlayback.Proofs.Engine.Operation

/-!
# Feeds on their way to the engine

Before every frame of a host some feeds are sent, and the frame takes feeds off its queue one by
one until the queue is empty or the frame has had its share (`drain`, `frame_drain`). It takes a
batch in front and leaves the rest, and what it does to the engine is what the operations of the
batch do, then one tick and one move of the clock (`frame_eq_ok`).

`Pumped` is the queue's part of a run and `Written` the engine's part. A run goes by both, frame by
frame (`run_eq_ok`).

* `run_feeds`: no feed is lost, repeated or overtaken. A run of a connected host is stopped by
  nothing but the clock, what it has applied is the beginning of what has been sent, and frames
  without new feeds come to the end of the queue.
-/
namespace TracePlayback.Host

variable {γ : Type}

/-- A frame, and the feeds that are sent before it. -/
structure Round where
  feeds : List Feed
  nanos : Nat

def sendAll (h : Host γ) (feeds : List Feed) : Host γ := feeds.foldl send h

theorem sendAll_eq (h : Host γ) (feeds : List Feed) :
    h.sendAll feeds = { h with queue := h.queue ++ feeds } := by
  induction feeds generalizing h with
  | nil => rw [List.append_nil]; rfl
  | cons feed feeds ih =>
    refine (ih (h.send feed)).trans ?_
    rw [send, List.append_assoc, List.singleton_append]

/-- What a frame asks of the engine: to take in a batch of feeds, to tick once and to play once. -/
def frameOperations (batch : List Feed) (nanos : Nat) : List Engine.Operation :=
  batch.map .apply ++ [.tickFrame (seconds nanos), .advancePlayback nanos]

/-- The queue's part of a run. Every frame takes a batch off the queue in front, a thousand feeds if
there are as many and else all of them, and leaves the others. -/
inductive Pumped : List Feed → List Round → List (List Feed) → List Feed → Prop
  | nil (queue : List Feed) : Pumped queue [] [] queue
  | cons {queue batch left last : List Feed} {r : Round} {rounds : List Round}
      {batches : List (List Feed)} (hbatch : queue ++ r.feeds = batch ++ left)
      (hcount : batch.length = min 1000 (queue ++ r.feeds).length)
      (hrest : Pumped left rounds batches last) : Pumped queue (r :: rounds) (batch :: batches) last

/-! ## The queue -/

theorem batch_eq {queue batch left : List Feed} (hbatch : queue = batch ++ left)
    (hcount : batch.length = min 1000 queue.length) :
    batch = queue.take maxFeeds ∧ left = queue.drop maxFeeds := by
  have htake : batch = queue.take maxFeeds := by
    rw [List.take_eq_take_min, maxFeeds, ← hcount, hbatch, List.take_left]
  have hwhole : batch ++ left = batch ++ queue.drop maxFeeds := by
    rw [← hbatch, htake, List.take_append_drop]
  exact ⟨htake, List.append_cancel_left hwhole⟩

/-- What has been applied and what is left are all that has been sent, in order. -/
theorem Pumped.flatten_append {queue last : List Feed} {rounds : List Round}
    {batches : List (List Feed)} (h : Pumped queue rounds batches last) :
    batches.flatten ++ last = queue ++ rounds.flatMap Round.feeds := by
  induction h with
  | nil queue => simp
  | @cons queue batch left last r rounds batches hbatch _ _ ih =>
    rw [List.flatten_cons, List.append_assoc, ih, ← List.append_assoc, ← hbatch,
      List.append_assoc, List.flatMap_cons]

/-- Frames without new feeds take a thousand off the queue each, until it is empty. -/
theorem Pumped.length_quiet {queue last : List Feed} {rounds : List Round}
    {batches : List (List Feed)} (h : Pumped queue rounds batches last)
    (hquiet : ∀ r ∈ rounds, r.feeds = []) : last.length = queue.length - 1000 * rounds.length := by
  induction h with
  | nil queue => rw [List.length_nil, Nat.mul_zero, Nat.sub_zero]
  | @cons queue batch left last r rounds batches hbatch hcount _ ih =>
    obtain ⟨hr, hrounds⟩ := List.forall_mem_cons.mp hquiet
    have hlength := congrArg List.length hbatch
    simp only [hr, List.append_nil, List.length_append] at hlength hcount
    rw [ih hrounds, List.length_cons]
    omega

/-- A longer run goes on where a shorter one has stopped. -/
theorem Pumped.split {queue last : List Feed} {rounds more : List Round}
    {batches : List (List Feed)} (h : Pumped queue (rounds ++ more) batches last) :
    ∃ first rest left, batches = first ++ rest ∧ Pumped queue rounds first left ∧
      Pumped left more rest last := by
  induction rounds generalizing queue batches with
  | nil => exact ⟨[], batches, queue, rfl, .nil queue, h⟩
  | cons r rounds ih =>
    cases h with
    | cons hbatch hcount hrest =>
      obtain ⟨first, rest, left, rfl, hfirst, hrest⟩ := ih hrest
      exact ⟨_, rest, left, rfl, .cons hbatch hcount hfirst, hrest⟩

variable [Generator γ]

/-- The engine's part of a run. The events of a frame are those that its operations return. -/
inductive Written :
    Engine γ → List Round → List (List Feed) → List (List Event) → Engine γ → Prop
  | nil (e : Engine γ) : Written e [] [] [] e
  | cons {e next last : Engine γ} {r : Round} {rounds : List Round} {batch : List Feed}
      {batches : List (List Feed)} {events : List Event} {more : List (List Event)}
      (hframe : e.run (frameOperations batch r.nanos) = .ok (events, next))
      (hrest : Written next rounds batches more last) :
      Written e (r :: rounds) (batch :: batches) (events :: more) last

/-- The events that every frame of a run writes, and the host after the run. -/
def run (h : Host γ) : List Round → Except EngineError (List (List Event) × Host γ)
  | [] => pure ([], h)
  | r :: rounds => do
    let (events, next) ← (h.sendAll r.feeds).frame r.nanos
    let (more, last) ← next.run rounds
    pure (events :: more, last)

/-! ## One frame -/

/-- Takes feeds off a queue and into an engine, one by one, at most `n` of them. The queue is not
looked at any more when that many have been taken. -/
def drain : Nat → List Feed → Engine γ → List Event × Engine γ × List Feed
  | 0, queue, e => ([], e, queue)
  | _ + 1, [], e => ([], e, [])
  | n + 1, feed :: queue, e =>
    let (events, e) := e.apply feed
    let (more, e, queue) := drain n queue e
    (events ++ more, e, queue)

theorem drain_eq (n : Nat) (queue : List Feed) (e : Engine γ) :
    drain n queue e =
      ((applyAll (queue.take n) e).1, (applyAll (queue.take n) e).2, queue.drop n) := by
  induction n generalizing queue e with
  | zero => rfl
  | succ n ih =>
    cases queue with
    | nil => rfl
    | cons feed queue => simp only [drain, ih, List.take_succ_cons, List.drop_succ_cons, applyAll]

theorem frame_drain {h : Host γ} (hconnected : h.connected = true) (nanos : Nat) :
    h.frame nanos = (do
      let (fed, engine, queue) := drain maxFeeds h.queue h.engine
      let (played, engine) ← (engine.tickFrame (seconds nanos)).advancePlayback nanos
      return (fed ++ played, { h with engine := engine, queue := queue })) := by
  rw [drain_eq, frame, if_pos hconnected]

/-- Feeds are taken in by as many operations of the engine. -/
theorem run_frameOperations (batch : List Feed) (nanos : Nat) (e : Engine γ) :
    e.run (frameOperations batch nanos) = (do
      let (fed, e) := applyAll batch e
      let (played, e) ← (e.tickFrame (seconds nanos)).advancePlayback nanos
      return (fed ++ played, e)) := by
  induction batch generalizing e with
  | nil => simp [frameOperations, Engine.run, applyAll, Engine.perform]
  | cons feed batch ih =>
    change ((e.apply feed).2.run (frameOperations batch nanos) >>= fun (more, e') =>
      pure ((e.apply feed).1 ++ more, e')) = _
    simp only [ih, applyAll, bind_assoc, pure_bind, List.append_assoc]

/-- A frame of a connected host does what its operations do to the engine, and takes its share off
the queue. -/
theorem frame_eq_ok {h h' : Host γ} (hconnected : h.connected = true) {nanos : Nat}
    {events : List Event} :
    h.frame nanos = .ok (events, h') ↔
      h.engine.run (frameOperations (h.queue.take maxFeeds) nanos) = .ok (events, h'.engine) ∧
      h'.queue = h.queue.drop maxFeeds ∧ h'.connected = true := by
  rw [frame_drain hconnected, drain_eq, run_frameOperations]
  simp only [bind_eq_ok, pure, Except.pure, Except.ok.injEq, Prod.mk.injEq]
  constructor
  · rintro ⟨⟨played, engine⟩, hplayed, rfl, rfl⟩
    exact ⟨⟨(played, engine), hplayed, rfl, rfl⟩, rfl, hconnected⟩
  · rintro ⟨⟨⟨played, engine⟩, hplayed, rfl, rfl⟩, hqueue, hconnected'⟩
    obtain ⟨engine', queue', connected'⟩ := h'
    obtain rfl : queue' = _ := hqueue
    obtain rfl : connected' = true := hconnected'
    exact ⟨(played, engine'), hplayed, rfl, by rw [hconnected]⟩

theorem round_eq_ok {h next : Host γ} (hconnected : h.connected = true) {r : Round}
    {events : List Event} :
    (h.sendAll r.feeds).frame r.nanos = .ok (events, next) ↔
      h.engine.run (frameOperations ((h.queue ++ r.feeds).take maxFeeds) r.nanos) =
        .ok (events, next.engine) ∧
      next.queue = (h.queue ++ r.feeds).drop maxFeeds ∧ next.connected = true := by
  rw [sendAll_eq, frame_eq_ok (by exact hconnected)]

theorem played_frameOperations (batch : List Feed) (nanos : Nat) :
    Engine.played (frameOperations batch nanos) = nanos := by
  induction batch with
  | nil => simp [frameOperations, Engine.played, Engine.Operation.nanos]
  | cons feed batch ih =>
    change 0 + Engine.played (frameOperations batch nanos) = nanos
    rw [ih, Nat.zero_add]

/-! ## Runs -/

theorem run_cons_ok {h last : Host γ} {r : Round} {rounds : List Round}
    {shown : List (List Event)} :
    h.run (r :: rounds) = .ok (shown, last) ↔ ∃ events next more,
      (h.sendAll r.feeds).frame r.nanos = .ok (events, next) ∧ next.run rounds = .ok (more, last) ∧
      shown = events :: more := by
  simp only [run, bind_eq_ok, pure, Except.pure, Except.ok.injEq, Prod.mk.injEq]
  constructor
  · rintro ⟨⟨events, next⟩, hframe, ⟨more, _⟩, hrest, rfl, rfl⟩
    exact ⟨events, next, more, hframe, hrest, rfl⟩
  · rintro ⟨events, next, more, hframe, hrest, rfl⟩
    exact ⟨(events, next), hframe, (more, last), hrest, rfl, rfl⟩

/-- A run of a connected host goes by what its queue and its engine do, each for itself. By
induction on the frames, from what one of them does. -/
theorem run_eq_ok {h last : Host γ} (hconnected : h.connected = true) {rounds : List Round}
    {shown : List (List Event)} :
    h.run rounds = .ok (shown, last) ↔ last.connected = true ∧
      ∃ batches, Pumped h.queue rounds batches last.queue ∧
        Written h.engine rounds batches shown last.engine := by
  induction rounds generalizing h shown with
  | nil =>
    constructor
    · intro hrun
      cases hrun
      exact ⟨hconnected, [], .nil _, .nil _⟩
    · rintro ⟨hlast, batches, hpumped, hwritten⟩
      obtain ⟨engine, queue, connected⟩ := h
      obtain ⟨engine', queue', connected'⟩ := last
      cases hpumped
      cases hwritten
      obtain rfl : connected = true := hconnected
      obtain rfl : connected' = true := hlast
      rfl
  | cons r rounds ih =>
    simp only [run_cons_ok, round_eq_ok hconnected]
    constructor
    · rintro ⟨events, next, more, ⟨hframe, hqueue, hnext⟩, hrest, rfl⟩
      obtain ⟨hlast, batches, hpumped, hwritten⟩ := (ih hnext).mp hrest
      refine ⟨hlast, _, .cons ?_ ?_ hpumped, .cons hframe hwritten⟩
      · rw [hqueue, List.take_append_drop]
      · rw [List.length_take, maxFeeds]
    · rintro ⟨hlast, batches, hpumped, hwritten⟩
      cases hpumped with
      | cons hbatch hcount hpumped =>
        obtain ⟨rfl, rfl⟩ := batch_eq hbatch hcount
        cases hwritten with
        | @cons e next _ _ _ _ _ events more hframe hwritten =>
          refine ⟨events, ⟨next, _, true⟩, more, ⟨hframe, rfl, rfl⟩, ?_, rfl⟩
          exact (ih rfl).mpr ⟨hlast, _, hpumped, hwritten⟩

theorem run_isOk {h : Host γ} (hconnected : h.connected = true)
    (hclock : h.engine.clock ≤ Clock.maxNanos) (rounds : List Round) :
    (∃ shown last, h.run rounds = .ok (shown, last)) ↔
      h.engine.clock + (rounds.map Round.nanos).sum ≤ Clock.maxNanos := by
  induction rounds generalizing h with
  | nil => exact ⟨fun _ => hclock, fun _ => ⟨_, _, rfl⟩⟩
  | cons r rounds ih =>
    have hframe := Engine.run_isOk hclock
      (frameOperations ((h.queue ++ r.feeds).take maxFeeds) r.nanos)
    rw [played_frameOperations] at hframe
    simp only [run_cons_ok, round_eq_ok hconnected, List.map_cons, List.sum_cons]
    constructor
    · rintro ⟨shown, last, events, next, more, ⟨hevents, -, hnext⟩, hrest, -⟩
      have hplayed := Engine.run_clock hevents
      rw [played_frameOperations] at hplayed
      have hfirst := hframe.mp ⟨events, next.engine, hevents⟩
      have hrest := (ih hnext (by omega)).mp ⟨more, last, hrest⟩
      omega
    · intro hsum
      obtain ⟨events, next, hevents⟩ := hframe.mpr (by omega)
      have hplayed := Engine.run_clock hevents
      rw [played_frameOperations] at hplayed
      obtain ⟨more, last, hrest⟩ :=
        (ih (h := ⟨next, (h.queue ++ r.feeds).drop maxFeeds, true⟩) rfl (by simp only; omega)).mpr
          (by simp only; omega)
      exact ⟨_, last, events, _, more, ⟨hevents, rfl, rfl⟩, hrest, rfl⟩

/-- **No feed is lost, repeated or overtaken.** A run of a connected host comes to its end exactly
if the clock can hold the time that it plays. What it applies and what is still queued are all that
has been sent, in order; each frame applies a thousand feeds, or all there are, and writes what the
engine returns for them and then for playing on, with one tick in between. Once nothing more is
sent, a frame for every thousand feeds is enough to apply them all. -/
theorem run_feeds (h : Host γ) (hconnected : h.connected = true)
    (hclock : h.engine.clock ≤ Clock.maxNanos) (rounds : List Round) :
    ((∃ shown last, h.run rounds = .ok (shown, last)) ↔
      h.engine.clock + (rounds.map Round.nanos).sum ≤ Clock.maxNanos) ∧
    (∀ shown last, h.run rounds = .ok (shown, last) →
      ∃ batches, Pumped h.queue rounds batches last.queue ∧
        Written h.engine rounds batches shown last.engine ∧
        batches.flatten ++ last.queue = h.queue ++ rounds.flatMap Round.feeds) ∧
    ∀ quiet : List Nat, h.engine.clock + (rounds.map Round.nanos).sum + quiet.sum ≤ Clock.maxNanos →
      h.queue.length + (rounds.flatMap Round.feeds).length ≤ 1000 * quiet.length →
      ∃ shown last, h.run (rounds ++ quiet.map (Round.mk [])) = .ok (shown, last) ∧
        last.queue = [] := by
  refine ⟨run_isOk hconnected hclock rounds, fun shown last hrun => ?_, fun quiet hsum hcount => ?_⟩
  · obtain ⟨-, batches, hpumped, hwritten⟩ := (run_eq_ok hconnected).mp hrun
    exact ⟨batches, hpumped, hwritten, hpumped.flatten_append⟩
  · obtain ⟨shown, last, hrun⟩ :=
      (run_isOk hconnected hclock (rounds ++ quiet.map (Round.mk []))).mpr (by
        have hquiet : (quiet.map (Round.mk [])).map Round.nanos = quiet := by
          simp [Function.comp_def]
        rw [List.map_append, List.sum_append, hquiet]
        omega)
    obtain ⟨-, batches, hpumped, -⟩ := (run_eq_ok hconnected).mp hrun
    obtain ⟨first, rest, left, rfl, hfirst, hrest⟩ := hpumped.split
    have hlength := hrest.length_quiet (by simp)
    have hsent := congrArg List.length hfirst.flatten_append
    refine ⟨shown, last, hrun, List.length_eq_zero_iff.mp ?_⟩
    simp only [List.length_append, List.length_map] at hsent hlength
    omega

/-- One feed more than a frame can take: it is left for the next one, and then applied. -/
theorem run_feeds_backlog :
    let h : Host WordSource := ⟨.new {} .silent ⟨[]⟩, [], true⟩
    let sent : List Feed := List.replicate 1001 (.clear .live)
    let rounds : List Round := [⟨sent, 20000000⟩]
    h.connected = true ∧ h.engine.clock ≤ Clock.maxNanos ∧
    (∃ shown last batches, h.run rounds = .ok (shown, last) ∧
      Pumped h.queue rounds batches last.queue ∧
      Written h.engine rounds batches shown last.engine ∧
      batches.flatten ++ last.queue = sent ∧ last.queue.length = 1) ∧
    ∃ shown last, h.run (rounds ++ [⟨[], 20000000⟩, ⟨[], 0⟩]) = .ok (shown, last) ∧
      last.queue = [] := by
  intro h sent rounds
  have hclock : h.engine.clock ≤ Clock.maxNanos := Nat.zero_le _
  have hcount : sent.length = 1001 := List.length_replicate
  have hfeeds : h.queue ++ rounds.flatMap Round.feeds = sent := List.append_nil sent
  obtain ⟨shown, last, hrun⟩ := (run_feeds h rfl hclock rounds).1.mpr (by decide)
  obtain ⟨batches, hpumped, hwritten, hsent⟩ :=
    (run_feeds h rfl hclock rounds).2.1 shown last hrun
  have hleft {left : List Feed} (h : Pumped [] [⟨sent, 20000000⟩] batches left) :
      left.length = 1 := by
    cases h with
    | cons hbatch hmin hrest =>
      cases hrest
      have hlength := congrArg List.length hbatch
      simp only [List.nil_append, List.length_append, hcount] at hlength hmin
      omega
  refine ⟨rfl, hclock,
    ⟨shown, last, batches, hrun, hpumped, hwritten, hsent.trans hfeeds, hleft hpumped⟩,
    (run_feeds h rfl hclock rounds).2.2 [20000000, 0] (by decide) ?_⟩
  rw [← List.length_append, hfeeds, hcount]
  decide

end TracePlayback.Host
