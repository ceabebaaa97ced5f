import MqttBench.Drive.CapacitySync
import MqttBench.Lib.Census

/-!
# The capacity loop, awaited

`pub_capacity_awaited` of `bench/drive.py` with the `Timer` thread of `bench/worker.py` and the
cancellation of `run_async`: `window` workers publish in turn and await each publish, until
they find `run.stop` set.  Only the `Timer` thread can step in between a worker's test of
`run.stop` and the publish that it has decided on.

* `AwaitStep` — the system, for every library: a publish ends at any time, with or without an
  exception, and a cancelled one may swallow the cancellation.
* `FeedInv` — its invariant.
* `sent_after_stop` — once `run.stop` is set, a publish begins only where a worker had tested
  it before.
* `pubCapacityAwaited_window` — **the window is kept, every publish is accounted for, and a
  stop lets at most one more publish begin.**
-/

namespace Drive

open Census Runs

/-! ## The program -/

/-- Where a worker stands. -/
inductive Feed
  /-- At the head of its loop. -/
  | ready
  /-- `run.stop` was not set; the publish is counted next. -/
  | chosen
  /-- Awaiting `publish`. -/
  | publishing
  | returned
  /-- `publish` passed the cancellation on. -/
  | abandoned
  /-- Cancelled before it ran. -/
  | dropped
  deriving DecidableEq

/-- The state of a run with `n` workers. -/
structure CapacityAwaited (n : ℕ) where
  run : Run
  /-- The sleep until `t_start` is over and the workers are there. -/
  started : Bool
  feeds : Fin n → Feed
  stop : Bool
  stopper : Stopper
  /-- `run_async` gave the task up. -/
  cancelled : Bool

def CapacityAwaited.init (n : ℕ) : CapacityAwaited n where
  run := Run.init
  started := false
  feeds := fun _ => .ready
  stop := false
  stopper := .idle
  cancelled := false

variable {n : ℕ}

/-- Worker `w` moves on. -/
def CapacityAwaited.move (s : CapacityAwaited n) (w : Fin n) (feed : Feed) : CapacityAwaited n :=
  { s with feeds := Function.update s.feeds w feed }

/-- No worker stands between its test of `run.stop` and its publish. -/
def CapacityAwaited.Free (s : CapacityAwaited n) : Prop := ∀ w, s.feeds w ≠ .chosen

/-- `run.done += 1`, or `run.failed += 1` behind an exception. -/
def completed (run : Run) (ok : Bool) : Run :=
  if ok then { run with done := run.done + 1 } else { run with failed := run.failed + 1 }

/-- What can happen next. -/
inductive AwaitAct (n : ℕ)
  | start
  | test (w : Fin n)
  | publish (w : Fin n)
  | complete (w : Fin n) (ok : Bool)
  | setStop
  | readWake
  | cancel
  | abandon (w : Fin n)
  | drop (w : Fin n)

/-- One step.  On the loop one worker runs at a time; the `Timer` thread steps in anywhere,
and finds no `run.wake` to call. -/
inductive AwaitStep : CapacityAwaited n → AwaitAct n → CapacityAwaited n → Prop
  /-- `gather` makes the workers. -/
  | start {s : CapacityAwaited n} : s.started = false → s.cancelled = false →
      AwaitStep s .start { s with started := true }
  /-- `while not run.stop`. -/
  | test {s : CapacityAwaited n} {w : Fin n} :
      s.started = true → s.Free → s.feeds w = .ready →
      AwaitStep s (.test w) (s.move w (if s.stop then .returned else .chosen))
  /-- `run.sent += 1`, and the call of `publish`. -/
  | publish {s : CapacityAwaited n} {w : Fin n} : s.feeds w = .chosen →
      AwaitStep s (.publish w)
        { s.move w .publishing with run := { s.run with sent := s.run.sent + 1 } }
  /-- `publish` returns, or raises an `Exception`. -/
  | complete {s : CapacityAwaited n} {w : Fin n} {ok : Bool} :
      s.Free → s.feeds w = .publishing →
      AwaitStep s (.complete w ok) { s.move w .ready with run := completed s.run ok }
  /-- `self.stop = True`. -/
  | setStop {s : CapacityAwaited n} : s.stopper = .idle →
      AwaitStep s .setStop { s with stop := true, stopper := .stopping }
  /-- `if self.wake is not None`. -/
  | readWake {s : CapacityAwaited n} : s.stopper = .stopping →
      AwaitStep s .readWake { s with stopper := .finished false }
  /-- `task.cancel()`. -/
  | cancel {s : CapacityAwaited n} : s.Free → AwaitStep s .cancel { s with cancelled := true }
  /-- `CancelledError` is no `Exception`. -/
  | abandon {s : CapacityAwaited n} {w : Fin n} :
      s.cancelled = true → s.Free → s.feeds w = .publishing →
      AwaitStep s (.abandon w) (s.move w .abandoned)
  | drop {s : CapacityAwaited n} {w : Fin n} :
      s.cancelled = true → s.started = true → s.Free → s.feeds w = .ready →
      AwaitStep s (.drop w) (s.move w .dropped)

/-! ## The invariant -/

/-- How many workers are at `feed`. -/
def CapacityAwaited.standing (s : CapacityAwaited n) (feed : Feed) : ℕ := census (· = feed) s.feeds

/-- What holds between any two steps. -/
structure FeedInv (s : CapacityAwaited n) : Prop where
  /-- What is sent and not done is in flight, or was given up. -/
  flight : s.run.sent = s.run.done + s.run.failed + s.standing .publishing + s.standing .abandoned
  single : s.standing .chosen ≤ 1
  unused : s.run.rejected = 0 ∧ s.run.skipped = 0
  counted : 0 ≤ s.run.done ∧ 0 ≤ s.run.failed
  /-- A worker that returned found `run.stop` set. -/
  stopped : ∀ w, s.feeds w = .returned → s.stop = true
  /-- A worker is given up by a cancellation only. -/
  givenUp : ∀ w, s.feeds w = .abandoned ∨ s.feeds w = .dropped → s.cancelled = true

theorem standing_init (feed : Feed) (h : feed ≠ .ready) : (CapacityAwaited.init n).standing feed = 0 :=
  census_eq_zero.2 fun _ hf => h hf.symm

theorem feedInv_init : FeedInv (CapacityAwaited.init n) where
  flight := by
    rw [standing_init .publishing (by decide), standing_init .abandoned (by decide)]
    rfl
  single := by rw [standing_init .chosen (by decide)]; exact Nat.zero_le 1
  unused := ⟨rfl, rfl⟩
  counted := ⟨le_rfl, le_rfl⟩
  stopped _ h := by cases h
  givenUp _ h := by rcases h with h | h <;> cases h

/-- A move changes how many are at a place by the place left and the place entered. -/
theorem standing_move (s : CapacityAwaited n) (w : Fin n) (feed place : Feed) :
    (s.move w feed).standing place + (if s.feeds w = place then 1 else 0) =
      s.standing place + if feed = place then 1 else 0 :=
  census_update s.feeds w feed

/-- Where nobody stands between test and publish, nobody is counted there. -/
theorem CapacityAwaited.Free.standing_chosen {s : CapacityAwaited n} (h : s.Free) : s.standing .chosen = 0 :=
  census_eq_zero.2 h

theorem feeds_move (s : CapacityAwaited n) (w v : Fin n) (feed : Feed) :
    (s.move w feed).feeds v = if v = w then feed else s.feeds v := by
  rw [CapacityAwaited.move]
  simp only [Function.update_apply]

/-- Where a worker stands after a move it stood before, or the move brought it there. -/
theorem of_feeds_move {s : CapacityAwaited n} {w v : Fin n} {feed place : Feed}
    (h : (s.move w feed).feeds v = place) : place = feed ∨ s.feeds v = place := by
  rw [feeds_move] at h
  split at h
  · exact .inl h.symm
  · exact .inr h

/-- What a move between places other than these leaves alone. -/
theorem standing_move_of_ne (s : CapacityAwaited n) {w : Fin n} (feed place : Feed)
    (hleft : s.feeds w ≠ place) (hentered : feed ≠ place) :
    (s.move w feed).standing place = s.standing place := by
  have h := standing_move s w feed place
  rw [if_neg hleft, if_neg hentered] at h
  exact h

/-- Where the workers stand after a move that is allowed to bring one there. -/
theorem FeedInv.places {s : CapacityAwaited n} (h : FeedInv s) (w : Fin n) (feed : Feed)
    (hstop : feed = .returned → s.stop = true)
    (hgiven : feed = .abandoned ∨ feed = .dropped → s.cancelled = true) :
    (∀ v, (s.move w feed).feeds v = .returned → s.stop = true) ∧
      ∀ v, (s.move w feed).feeds v = .abandoned ∨ (s.move w feed).feeds v = .dropped →
        s.cancelled = true := by
  constructor
  · intro v hv
    obtain hnew | hold := of_feeds_move hv
    · exact hstop hnew.symm
    · exact h.stopped v hold
  · rintro v (hv | hv)
    · obtain hnew | hold := of_feeds_move hv
      · exact hgiven (.inl hnew.symm)
      · exact h.givenUp v (.inl hold)
    · obtain hnew | hold := of_feeds_move hv
      · exact hgiven (.inr hnew.symm)
      · exact h.givenUp v (.inr hold)

theorem FeedInv.test {s : CapacityAwaited n} (h : FeedInv s) {w : Fin n} (hfree : s.Free)
    (hw : s.feeds w = .ready) :
    FeedInv (s.move w (if s.stop then .returned else .chosen)) := by
  have hzero := hfree.standing_chosen
  have hmove := standing_move s w (if s.stop then .returned else .chosen) .chosen
  obtain ⟨hstopped, hgiven⟩ := h.places w (if s.stop then .returned else .chosen)
    (fun hf => by by_contra hstop; rw [if_neg hstop] at hf; cases hf)
    (fun hf => by rcases hf with hf | hf <;> split at hf <;> cases hf)
  refine ⟨?_, ?_, h.unused, h.counted, hstopped, hgiven⟩
  · rw [standing_move_of_ne s _ _ (by simp [hw]) (by split <;> decide),
      standing_move_of_ne s _ _ (by simp [hw]) (by split <;> decide)]
    exact h.flight
  · generalize (if s.stop then Feed.returned else Feed.chosen) = feed at hmove ⊢
    split_ifs at hmove <;> omega

theorem FeedInv.publish {s : CapacityAwaited n} (h : FeedInv s) {w : Fin n}
    (hw : s.feeds w = .chosen) :
    FeedInv { s.move w .publishing with run := { s.run with sent := s.run.sent + 1 } } := by
  have hin := standing_move s w .publishing .publishing
  have hout := standing_move s w .publishing .chosen
  have hrest := standing_move_of_ne s .publishing .abandoned
    (show s.feeds w ≠ _ by simp [hw]) (by decide)
  rw [hw, if_neg (by decide), if_pos rfl] at hin
  rw [hw, if_pos rfl, if_neg (by decide)] at hout
  have hflight := h.flight
  have hsingle := h.single
  obtain ⟨hstopped, hgiven⟩ := h.places w .publishing (fun hf => by cases hf)
    (fun hf => by rcases hf with hf | hf <;> cases hf)
  refine ⟨?_, ?_, h.unused, h.counted, hstopped, hgiven⟩
  · change s.run.sent + 1 = s.run.done + s.run.failed + (s.move w .publishing).standing .publishing +
      (s.move w .publishing).standing .abandoned
    omega
  · change (s.move w .publishing).standing .chosen ≤ 1
    omega

/-- A completion counts once. -/
theorem completed_counts (run : Run) (ok : Bool) :
    (completed run ok).sent = run.sent ∧
      (completed run ok).done + (completed run ok).failed = run.done + run.failed + 1 ∧
      run.done ≤ (completed run ok).done ∧ run.failed ≤ (completed run ok).failed ∧
      (completed run ok).rejected = run.rejected ∧ (completed run ok).skipped = run.skipped := by
  cases ok <;> simp [completed] <;> omega

theorem FeedInv.complete {s : CapacityAwaited n} (h : FeedInv s) {w : Fin n}
    (hw : s.feeds w = .publishing) (ok : Bool) :
    FeedInv { s.move w .ready with run := completed s.run ok } := by
  have hout := standing_move s w .ready .publishing
  have hchosen := standing_move_of_ne s .ready .chosen
    (show s.feeds w ≠ _ by simp [hw]) (by decide)
  have hrest := standing_move_of_ne s .ready .abandoned
    (show s.feeds w ≠ _ by simp [hw]) (by decide)
  rw [hw, if_pos rfl, if_neg (by decide)] at hout
  obtain ⟨hsent, hsum, hdone, hfailed, hrejected, hskipped⟩ := completed_counts s.run ok
  obtain ⟨hdone0, hfailed0⟩ := h.counted
  have hflight := h.flight
  obtain ⟨hstopped, hgiven⟩ := h.places w .ready (fun hf => by cases hf)
    (fun hf => by rcases hf with hf | hf <;> cases hf)
  refine ⟨?_, hchosen.trans_le h.single, ⟨hrejected.trans h.unused.1, hskipped.trans h.unused.2⟩,
    ⟨hdone0.trans hdone, hfailed0.trans hfailed⟩, hstopped, hgiven⟩
  change (completed s.run ok).sent = (completed s.run ok).done + (completed s.run ok).failed +
    (s.move w .ready).standing .publishing + (s.move w .ready).standing .abandoned
  omega

/-- A worker that is cancelled is not counted again. -/
theorem FeedInv.giveUp {s : CapacityAwaited n} (h : FeedInv s) (hc : s.cancelled = true)
    {w : Fin n} {feed : Feed}
    (hmove : s.feeds w = .publishing ∧ feed = .abandoned ∨ s.feeds w = .ready ∧ feed = .dropped) :
    FeedInv (s.move w feed) := by
  have hpublishing := standing_move s w feed .publishing
  have habandoned := standing_move s w feed .abandoned
  have hchosen := standing_move s w feed .chosen
  have hflight := h.flight
  have hsingle := h.single
  obtain ⟨hstopped, -⟩ := h.places w feed
    (fun hf => by obtain ⟨-, rfl⟩ | ⟨-, rfl⟩ := hmove <;> cases hf) (fun _ => hc)
  refine ⟨?_, ?_, h.unused, h.counted, hstopped, fun _ _ => hc⟩
  · change s.run.sent = s.run.done + s.run.failed + _ + _
    obtain ⟨hw, rfl⟩ | ⟨hw, rfl⟩ := hmove <;> rw [hw] at hpublishing habandoned <;>
      simp at hpublishing habandoned <;> omega
  · obtain ⟨hw, rfl⟩ | ⟨hw, rfl⟩ := hmove <;> rw [hw] at hchosen <;> simp at hchosen <;> omega

/-- **Every step keeps the invariant.** -/
theorem FeedInv.step {s s' : CapacityAwaited n} {a : AwaitAct n} (h : FeedInv s)
    (hs : AwaitStep s a s') : FeedInv s' := by
  cases hs with
  | start => exact { h with }
  | test _ hfree hw => exact h.test hfree hw
  | publish hw => exact h.publish hw
  | complete _ hw => exact h.complete hw _
  | setStop => exact { h with stopped := fun _ _ => rfl }
  | readWake => exact { h with }
  | cancel => exact { h with givenUp := fun _ _ => rfl }
  | abandon hc _ hw => exact h.giveUp hc (.inl ⟨hw, rfl⟩)
  | drop hc _ _ hw => exact h.giveUp hc (.inr ⟨hw, rfl⟩)

theorem invariant_feedInv (n : ℕ) :
    Invariant (· = CapacityAwaited.init n) AwaitStep FeedInv where
  init h := by
    rw [h]
    exact feedInv_init
  step h hs := h.step hs

/-! ## The stop -/

/-- **Behind the stop nothing is chosen.**  What is sent can grow only by the publish that a
worker had decided on. -/
theorem sent_after_stop {s s' : CapacityAwaited n}
    (h : Leads AwaitStep s s') (hstop : s.stop = true) :
    s'.stop = true ∧ s'.run.sent + s'.standing .chosen ≤ s.run.sent + s.standing .chosen := by
  refine h.holds (P := fun x => x.stop = true ∧
    x.run.sent + x.standing .chosen ≤ s.run.sent + s.standing .chosen) ⟨?_, ?_⟩
  · rintro x rfl
    exact ⟨hstop, le_rfl⟩
  · rintro x a x' ⟨hx, hle⟩ hstep
    cases hstep with
    | start | setStop | readWake | cancel => exact ⟨by simp [hx], hle⟩
    | @test w _ hfree hw =>
      refine ⟨hx, ?_⟩
      rw [hx, if_pos rfl, standing_move_of_ne x _ _ (by simp [hw]) (by decide)]
      exact hle
    | @publish w hw =>
      have hmove := standing_move x w .publishing .chosen
      rw [hw, if_pos rfl, if_neg (by decide)] at hmove
      refine ⟨hx, ?_⟩
      change x.run.sent + 1 + (x.move w .publishing).standing .chosen ≤ _
      omega
    | @complete w ok _ hw =>
      have hmove := standing_move_of_ne x .ready .chosen
        (show x.feeds w ≠ _ by simp [hw]) (by decide)
      refine ⟨hx, ?_⟩
      change (completed x.run ok).sent + (x.move w .ready).standing .chosen ≤ _
      rw [hmove, (completed_counts x.run ok).1]
      exact hle
    | @abandon w _ _ hw =>
      refine ⟨hx, ?_⟩
      rw [standing_move_of_ne x _ _ (by simp [hw]) (by decide)]
      exact hle
    | @drop w _ _ _ hw =>
      refine ⟨hx, ?_⟩
      rw [standing_move_of_ne x _ _ (by simp [hw]) (by decide)]
      exact hle

/-! ## All runs -/

/-- What a caller sees of the coroutine in one state. -/
structure KeepsWindow (s : CapacityAwaited n) : Prop where
  /-- What counts as outstanding is awaited, or was given up by the cancellation. -/
  outstanding : s.run.inFlight = s.standing .publishing + s.standing .abandoned
  bounded : 0 ≤ s.run.inFlight ∧ s.run.inFlight ≤ n
  unused : s.run.rejected = 0 ∧ s.run.skipped = 0
  /-- Without a cancellation nothing is given up. -/
  kept : s.cancelled = false → s.standing .abandoned = 0 ∧ s.standing .dropped = 0
  /-- When the coroutine has returned, nothing is outstanding and `run.stop` is set. -/
  settled : (∀ w, s.feeds w = .returned) → s.run.inFlight = 0 ∧ (0 < n → s.stop = true)
  /-- Once `run.stop` is set, one more publish can begin, whatever happens. -/
  late : s.stop = true → ∀ s', Leads AwaitStep s s' →
    s'.run.sent ≤ s.run.sent + 1 ∧ s'.run.done + s'.run.failed ≤ s.run.sent + 1

/-- Publishing and being given up exclude each other. -/
theorem outstanding_le (s : CapacityAwaited n) :
    s.standing .publishing + s.standing .abandoned ≤ n := by
  have hle := census_add_le (p := (· = Feed.publishing)) (q := (· = Feed.abandoned))
    (fun x hx hx' => by rw [hx] at hx'; cases hx') s.feeds
  rwa [Fintype.card_fin] at hle

/-- **The window is kept and every publish is accounted for**, in any order of tests,
publishes, completions, the stop and the cancellation; and a stop lets at most one more
publish begin. -/
theorem pubCapacityAwaited_window (window : ℕ) (s : CapacityAwaited window)
    (h : Reachable (· = CapacityAwaited.init window) AwaitStep s) : KeepsWindow s := by
  have hinv := h.holds (invariant_feedInv window)
  have hflight := hinv.flight
  have hle := outstanding_le s
  refine ⟨?_, ⟨?_, ?_⟩, hinv.unused, fun hc => ?_, fun hall => ?_, fun hstop s' hs' => ?_⟩
  · rw [Run.inFlight]
    omega
  · rw [Run.inFlight]
    omega
  · rw [Run.inFlight]
    omega
  · constructor <;>
      · refine census_eq_zero.2 fun w hw => ?_
        have hgiven := hinv.givenUp w (by simp [hw])
        rw [hc] at hgiven
        cases hgiven
  · have hnone : ∀ feed, feed ≠ Feed.returned → s.standing feed = 0 := fun feed hfeed =>
      census_eq_zero.2 fun w hw => hfeed (hw.symm.trans (hall w))
    have hpublishing := hnone .publishing (by decide)
    have habandoned := hnone .abandoned (by decide)
    refine ⟨?_, fun hpos => hinv.stopped ⟨0, hpos⟩ (hall _)⟩
    rw [Run.inFlight]
    omega
  · obtain ⟨-, hsent⟩ := sent_after_stop hs' hstop
    have hsingle := hinv.single
    have hflight' := (hs'.holds ⟨fun hx => by rw [hx]; exact hinv, fun hx hstep => hx.step hstep⟩ :
      FeedInv s').flight
    omega

/-- A worker has tested `run.stop` when the `Timer` thread sets it. -/
def chosenExample : CapacityAwaited 2 :=
  { ((CapacityAwaited.init 2).move 0 .chosen) with
    started := true
    stop := true
    stopper := .stopping }

theorem pubCapacityAwaited_window_example :
    KeepsWindow chosenExample ∧ ∃ s', Leads AwaitStep chosenExample s' ∧
      s'.run.sent = chosenExample.run.sent + 1 := by
  have h0 : Reachable (· = CapacityAwaited.init 2) AwaitStep (CapacityAwaited.init 2) := .start rfl
  have h1 := h0.next (a := .start) (.start rfl rfl)
  have h2 := h1.next (a := .test 0) (.test rfl (fun w => by fin_cases w <;> decide) rfl)
  have h3 := h2.next (a := .setStop) (.setStop rfl)
  have h4 : Leads AwaitStep chosenExample chosenExample := .refl _
  exact ⟨pubCapacityAwaited_window 2 chosenExample h3, _, h4.next (a := .publish 0) (.publish rfl),
    rfl⟩

end Drive
