import MqttBench.Drive.CapacitySync

/-!
# The capacity loop, published without waiting

`pub_capacity_nowait` of `bench/drive.py` with the library's completions on the same event
loop and the `Timer` thread of `bench/worker.py`, for every library that completes each
accepted publish at most once and never a refused one.  Only the `Timer` thread can step
in between two steps of the coroutine that awaits nothing.

* `NowaitStep` — the system.
* `InFlightInv`, `WaiterInv`, `StopInv` — its invariants.
* `pubCapacityNowait_awake` — **the window is kept, and no completion and no stop is
  missed**, in every reachable state.
-/

namespace Drive

open Runs

/-! ## The program -/

/-- Where the coroutine stands in `pub_capacity_nowait`. -/
inductive Refill
  /-- `run.wake` is set next. -/
  | starting
  /-- In the sleep until `t_start`. -/
  | sleeping
  /-- `run.stop` is tested next. -/
  | testing
  /-- The window is tested next; `burst` publishes were accepted in this refill. -/
  | filling (burst : ℕ)
  /-- In `publish_nowait`, counted as sent; the library has not decided yet. -/
  | calling (burst : ℕ)
  /-- In `publish_nowait`; the library took the message. -/
  | accepted (burst : ℕ)
  /-- `publish_nowait` returns nothing. -/
  | refused
  /-- The refill is over; whether to wait is tested next. -/
  | deciding
  /-- Awaiting the waiter. -/
  | parked
  /-- In `sleep(0)`. -/
  | yielding
  | returned
  deriving DecidableEq

/-- The event loop can run callbacks. -/
def Refill.Suspended : Refill → Prop
  | .sleeping | .parked | .yielding | .returned => True
  | _ => False

/-- The library's own code runs. -/
def Refill.InCall : Refill → Prop
  | .calling _ | .accepted _ | .refused => True
  | _ => False

/-- From the test of `run.stop` to the next suspension. -/
def Refill.Refilling : Refill → Prop
  | .filling _ | .calling _ | .accepted _ | .refused | .deciding => True
  | _ => False

/-- How many publishes are counted as sent that the library has not taken. -/
def Refill.undecided : Refill → ℕ
  | .calling _ | .refused => 1
  | _ => 0

/-- How many calls the refill can still make. -/
def Refill.left (window : ℕ) : Refill → ℕ
  | .filling burst => window - burst
  | .calling burst | .accepted burst => window - (burst + 1)
  | _ => 0

/-- The state of a run.  `waiter` says whether `state["waiter"]` is set, and `resolved`
whether the future that was put there last is done.  `calls` numbers the calls of
`publish_nowait` from one; `pending` are those accepted and not completed. -/
structure CapacityNowait where
  run : Run
  loop : Refill
  waiter : Bool
  resolved : Bool
  stop : Bool
  /-- Whether `run.wake` is set. -/
  wake : Bool
  stopper : Stopper
  /-- How many calls of `release` are queued on the event loop. -/
  queued : ℕ
  calls : ℕ
  pending : Finset ℕ

def CapacityNowait.init : CapacityNowait where
  run := Run.init
  loop := .starting
  waiter := false
  resolved := false
  stop := false
  wake := false
  stopper := .idle
  queued := 0
  calls := 0
  pending := ∅

/-- `release`. -/
def CapacityNowait.release (s : CapacityNowait) : CapacityNowait :=
  { s with waiter := false, resolved := s.resolved || s.waiter }

/-- `on_complete`. -/
def CapacityNowait.onComplete (window : ℕ) (s : CapacityNowait) : CapacityNowait :=
  if s.waiter ∧ s.run.inFlight ≤ lowWater window then s.release else s

/-- `on_publish`, for one pending call. -/
def CapacityNowait.completed (window : ℕ) (s : CapacityNowait) (call reasonCode : ℕ) :
    CapacityNowait :=
  CapacityNowait.onComplete window { s with
    run := completionCallback s.run reasonCode
    pending := s.pending.erase call }

/-- What can happen next. -/
inductive NowaitAct
  | install
  | resume
  | test
  | call
  | full
  | accept
  | taken
  | refuse
  | rejected
  | decide
  | complete (call reasonCode : ℕ)
  | release
  | setStop
  | readWake
  | callWake
  deriving DecidableEq

/-- One step.  The library completes a publish that it took and has not completed, inside a
call or while the coroutine is suspended. -/
inductive NowaitStep (window : ℕ) : CapacityNowait → NowaitAct → CapacityNowait → Prop
  /-- `run.wake = ...`. -/
  | install {s : CapacityNowait} : s.loop = .starting →
      NowaitStep window s .install { s with wake := true, loop := .sleeping }
  /-- What the coroutine awaited is there. -/
  | resume {s : CapacityNowait} :
      s.loop = .sleeping ∨ s.loop = .yielding ∨ s.loop = .parked ∧ s.resolved = true →
      NowaitStep window s .resume { s with loop := .testing }
  /-- `while not run.stop`. -/
  | test {s : CapacityNowait} : s.loop = .testing →
      NowaitStep window s .test { s with loop := if s.stop then .returned else .filling 0 }
  | call {s : CapacityNowait} {burst : ℕ} : s.loop = .filling burst → s.run.inFlight < window →
      NowaitStep window s .call { s with
        run := { s.run with sent := s.run.sent + 1 }
        loop := .calling burst
        calls := s.calls + 1 }
  | full {s : CapacityNowait} {burst : ℕ} : s.loop = .filling burst → window ≤ s.run.inFlight →
      NowaitStep window s .full { s with loop := .deciding }
  | accept {s : CapacityNowait} {burst : ℕ} : s.loop = .calling burst →
      NowaitStep window s .accept { s with
        loop := .accepted burst
        pending := insert s.calls s.pending }
  /-- `burst += 1`, and the test after it. -/
  | taken {s : CapacityNowait} {burst : ℕ} : s.loop = .accepted burst →
      NowaitStep window s .taken { s with
        loop := if window ≤ burst + 1 then .deciding else .filling (burst + 1) }
  | refuse {s : CapacityNowait} {burst : ℕ} : s.loop = .calling burst →
      NowaitStep window s .refuse { s with loop := .refused }
  | rejected {s : CapacityNowait} : s.loop = .refused →
      NowaitStep window s .rejected { s with
        run := { s.run with sent := s.run.sent - 1, rejected := s.run.rejected + 1 }
        loop := .deciding }
  /-- A new waiter when the window is full, `sleep(0)` when it is not. -/
  | decide {s : CapacityNowait} : s.loop = .deciding →
      NowaitStep window s .decide
        (if window ≤ s.run.inFlight then
          { s with waiter := true, resolved := false, loop := .parked }
        else { s with loop := .yielding })
  | complete {s : CapacityNowait} {call reasonCode : ℕ} :
      s.loop.InCall ∨ s.loop.Suspended → call ∈ s.pending →
      NowaitStep window s (.complete call reasonCode) (s.completed window call reasonCode)
  /-- The event loop runs a `release` that `run.wake` queued. -/
  | release {s : CapacityNowait} : s.loop.Suspended → 0 < s.queued →
      NowaitStep window s .release { s.release with queued := s.queued - 1 }
  /-- `self.stop = True`. -/
  | setStop {s : CapacityNowait} : s.stopper = .idle →
      NowaitStep window s .setStop { s with stop := true, stopper := .stopping }
  /-- `if self.wake is not None`. -/
  | readWake {s : CapacityNowait} : s.stopper = .stopping →
      NowaitStep window s .readWake
        { s with stopper := if s.wake then .waking else .finished false }
  /-- `self.wake()`, which is `loop.call_soon_threadsafe(release)`. -/
  | callWake {s : CapacityNowait} : s.stopper = .waking →
      NowaitStep window s .callWake
        { s with stopper := .finished true, queued := s.queued + 1 }

/-! ## What a callback does -/

/-- `on_complete` releases who waits, or leaves the state as it is. -/
theorem CapacityNowait.onComplete_cases (window : ℕ) (s : CapacityNowait) :
    s.onComplete window = s ∧ (s.waiter = true → lowWater window < s.run.inFlight) ∨
      s.onComplete window = s.release := by
  unfold CapacityNowait.onComplete
  split
  · exact .inr rfl
  · next h => exact .inl ⟨rfl, fun hw => not_le.1 fun hle => h ⟨hw, hle⟩⟩

/-- The callback counts, and `on_complete` releases who waits or does not. -/
theorem CapacityNowait.completed_cases (window : ℕ) (s : CapacityNowait) (call reasonCode : ℕ) :
    let counted : CapacityNowait :=
      { s with run := completionCallback s.run reasonCode, pending := s.pending.erase call }
    s.completed window call reasonCode = counted ∧
        (s.waiter = true → lowWater window < (completionCallback s.run reasonCode).inFlight) ∨
      s.completed window call reasonCode = counted.release :=
  CapacityNowait.onComplete_cases window _

theorem completionCallback_inFlight (run : Run) (reasonCode : ℕ) :
    (completionCallback run reasonCode).inFlight = run.inFlight - 1 := by
  obtain ⟨hsum, hsent⟩ := completionCallback_sum run reasonCode
  unfold Run.inFlight
  omega

/-! ## The counters -/

/-- The counters and the publishes they count. -/
structure InFlightInv (window : ℕ) (s : CapacityNowait) : Prop where
  made : ∀ call ∈ s.pending, call ≤ s.calls
  fresh : ∀ burst, s.loop = .calling burst → s.calls ∉ s.pending
  inFlight : s.run.inFlight = s.pending.card + s.loop.undecided
  bounded : s.run.inFlight ≤ window

theorem inFlightInv_init (window : ℕ) : InFlightInv window CapacityNowait.init where
  made _ h := absurd h (Finset.notMem_empty _)
  fresh _ h := by cases h
  inFlight := rfl
  bounded := Int.natCast_nonneg window

theorem InFlightInv.onComplete {window : ℕ} {s : CapacityNowait} (h : InFlightInv window s) :
    InFlightInv window (s.onComplete window) := by
  rcases s.onComplete_cases window with ⟨heq, -⟩ | heq
  · rw [heq]
    exact h
  · rw [heq]
    exact ⟨h.made, h.fresh, h.inFlight, h.bounded⟩

theorem InFlightInv.step {window : ℕ} {s s' : CapacityNowait} {a : NowaitAct}
    (h : InFlightInv window s) (hs : NowaitStep window s a s') : InFlightInv window s' := by
  have hflight := h.inFlight
  have hbounded := h.bounded
  cases hs with
  | install hl | full hl =>
    rw [hl] at hflight
    exact ⟨h.made, fun _ hc => (by cases hc), hflight, hbounded⟩
  | resume hl =>
    have hzero : s.loop.undecided = 0 := by
      rcases hl with hl | hl | ⟨hl, -⟩ <;> rw [hl] <;> rfl
    rw [hzero] at hflight
    exact ⟨h.made, fun _ hc => (by cases hc), hflight, hbounded⟩
  | test hl =>
    rw [hl] at hflight
    refine ⟨h.made, ?_, ?_, hbounded⟩
    · intro burst hc
      simp only at hc
      split at hc <;> cases hc
    · rw [hflight]
      simp only
      split <;> rfl
  | @call burst hl hlt =>
    rw [hl] at hflight
    refine ⟨fun c hc => (h.made c hc).trans (Nat.le_succ _), ?_, ?_, ?_⟩
    · intro _ _ hmem
      exact absurd (h.made _ hmem) (Nat.not_succ_le_self _)
    · simp only [Run.inFlight, Refill.undecided] at hflight ⊢
      push_cast at hflight ⊢
      omega
    · simp only [Run.inFlight] at hlt ⊢
      omega
  | @accept burst hl =>
    have hnew := h.fresh burst hl
    refine ⟨?_, fun _ hc => (by cases hc), ?_, hbounded⟩
    · intro c hc
      rcases Finset.mem_insert.1 hc with rfl | hc
      · exact le_rfl
      · exact h.made c hc
    · rw [hl] at hflight
      simp only [Finset.card_insert_of_notMem hnew, Refill.undecided] at hflight ⊢
      push_cast at hflight ⊢
      omega
  | taken hl =>
    rw [hl] at hflight
    refine ⟨h.made, ?_, ?_, hbounded⟩
    · intro b hc
      simp only at hc
      split at hc <;> cases hc
    · rw [hflight]
      simp only
      split <;> rfl
  | refuse hl =>
    rw [hl] at hflight
    exact ⟨h.made, fun _ hc => (by cases hc), hflight, hbounded⟩
  | rejected hl =>
    rw [hl] at hflight
    refine ⟨h.made, fun _ hc => (by cases hc), ?_, ?_⟩
    · simp only [Run.inFlight, Refill.undecided] at hflight ⊢
      push_cast at hflight ⊢
      omega
    · simp only [Run.inFlight] at hbounded ⊢
      omega
  | decide hl =>
    rw [hl] at hflight
    split
    · exact ⟨h.made, fun _ hc => (by cases hc), hflight, hbounded⟩
    · exact ⟨h.made, fun _ hc => (by cases hc), hflight, hbounded⟩
  | @complete call reasonCode _ hmem =>
    have hcard := Finset.card_erase_add_one hmem
    have hone := completionCallback_inFlight s.run reasonCode
    have hcounted : InFlightInv window { s with
        run := completionCallback s.run reasonCode
        pending := s.pending.erase call } := by
      refine ⟨fun c hc => h.made c (Finset.mem_of_mem_erase hc), ?_, ?_, ?_⟩
      · intro burst hc hm
        exact h.fresh burst hc (Finset.mem_of_mem_erase hm)
      · simp only [hone]
        rw [hflight, ← hcard]
        push_cast
        ring
      · simp only [hone]
        omega
    exact hcounted.onComplete
  | release | setStop | readWake | callWake => exact ⟨h.made, h.fresh, hflight, hbounded⟩

/-! ## The waiter -/

theorem lowWater_lt (window : ℤ) : lowWater window < window := by
  unfold lowWater
  omega

/-- Who waits is in `state["waiter"]` until the future is resolved. -/
structure WaiterInv (window : ℕ) (s : CapacityNowait) : Prop where
  parked : s.waiter = true → s.loop = .parked
  resolved : s.loop = .parked → s.resolved = !s.waiter
  above : s.waiter = true → lowWater window < s.run.inFlight

theorem waiterInv_init (window : ℕ) : WaiterInv window CapacityNowait.init where
  parked h := by cases h
  resolved h := by cases h
  above h := by cases h

/-- Nobody waits but who is parked. -/
theorem WaiterInv.unset {window : ℕ} {s : CapacityNowait} (h : WaiterInv window s)
    (hl : s.loop ≠ .parked) : s.waiter ≠ true :=
  fun hw => hl (h.parked hw)

theorem WaiterInv.resolved_release {window : ℕ} {s : CapacityNowait} (h : WaiterInv window s)
    (hp : s.loop = .parked) : (s.resolved || s.waiter) = !false := by
  rw [h.resolved hp]
  cases s.waiter <;> rfl

theorem WaiterInv.step {window : ℕ} {s s' : CapacityNowait} {a : NowaitAct}
    (h : WaiterInv window s) (hs : NowaitStep window s a s') : WaiterInv window s' := by
  cases hs with
  | install hl | call hl | full hl | accept hl | refuse hl | rejected hl =>
    have hunset := h.unset (by simp [hl])
    exact ⟨fun hw => absurd hw hunset, fun hp => (by cases hp), fun hw => absurd hw hunset⟩
  | resume hl =>
    have hunset : s.waiter ≠ true := by
      rcases hl with hl | hl | ⟨hl, hr⟩
      · exact h.unset (by simp [hl])
      · exact h.unset (by simp [hl])
      · intro hw
        rw [h.resolved hl, hw] at hr
        cases hr
    exact ⟨fun hw => absurd hw hunset, fun hp => (by cases hp), fun hw => absurd hw hunset⟩
  | test hl | taken hl =>
    have hunset := h.unset (by simp [hl])
    refine ⟨fun hw => absurd hw hunset, ?_, fun hw => absurd hw hunset⟩
    intro hp
    simp only at hp
    split at hp <;> cases hp
  | decide hl =>
    split
    · next hfull => exact ⟨fun _ => rfl, fun _ => rfl, fun _ => (lowWater_lt _).trans_le hfull⟩
    · have hunset := h.unset (by simp [hl])
      exact ⟨fun hw => absurd hw hunset, fun hp => (by cases hp), fun hw => absurd hw hunset⟩
  | @complete call reasonCode =>
    rcases s.completed_cases window call reasonCode with ⟨heq, habove⟩ | heq
    · rw [heq]
      exact ⟨h.parked, h.resolved, habove⟩
    · rw [heq]
      exact ⟨fun hw => (by cases hw), h.resolved_release, fun hw => (by cases hw)⟩
  | release => exact ⟨fun hw => (by cases hw), h.resolved_release, fun hw => (by cases hw)⟩
  | setStop | readWake | callWake => exact ⟨h.parked, h.resolved, h.above⟩

/-! ## The stop -/

/-- A stop is on its way to whoever does not test `run.stop` next. -/
structure StopInv (s : CapacityNowait) : Prop where
  wake : s.loop ≠ .starting → s.wake = true
  stopped : s.stopper ≠ .idle → s.stop = true
  started : s.stop = true → s.stopper ≠ .idle
  /-- Who read no `run.wake` stopped a loop that had not tested `run.stop` yet. -/
  unwoken : s.stopper = .finished false → ¬ s.loop.Refilling ∧ s.waiter = false
  coming : s.stopper = .finished true → s.loop.Refilling ∨ s.waiter = true → 0 < s.queued

theorem stopInv_init : StopInv CapacityNowait.init where
  wake h := absurd rfl h
  stopped h := absurd rfl h
  started h := by cases h
  unwoken h := by cases h
  coming h := by cases h

/-- Whatever a refill does, the stop stays on its way. -/
theorem StopInv.of_refilling {s : CapacityNowait} (h : StopInv s) (hr : s.loop.Refilling)
    (run : Run) (loop : Refill) (waiter resolved : Bool) (calls : ℕ) (pending : Finset ℕ) :
    StopInv { s with run, loop, waiter, resolved, calls, pending } where
  wake _ := h.wake fun hl => by
    rw [hl] at hr
    exact hr
  stopped := h.stopped
  started := h.started
  unwoken hf := absurd hr (h.unwoken hf).1
  coming hf _ := h.coming hf (.inl hr)

/-- Nothing has to be on its way to who is not refilling and waits for nothing. -/
theorem StopInv.of_idle {s s' : CapacityNowait} (h : StopInv s)
    (hwake : s'.loop ≠ .starting → s'.wake = true) (hstop : s'.stop = s.stop)
    (hstopper : s'.stopper = s.stopper) (hloop : ¬ s'.loop.Refilling) (hwaiter : s'.waiter = false) :
    StopInv s' where
  wake := hwake
  stopped hne := by
    rw [hstop]
    exact h.stopped (hstopper ▸ hne)
  started hs := by
    rw [hstopper]
    exact h.started (hstop ▸ hs)
  unwoken _ := ⟨hloop, hwaiter⟩
  coming _ hr := by
    rcases hr with hr | hr
    · exact absurd hr hloop
    · rw [hwaiter] at hr
      cases hr

theorem Refill.Suspended.not_refilling {loop : Refill} (h : loop.Suspended) :
    ¬ loop.Refilling := by
  cases loop <;> simp_all [Refill.Suspended, Refill.Refilling]

theorem StopInv.step {window : ℕ} {s s' : CapacityNowait} {a : NowaitAct}
    (h : StopInv s) (hw : WaiterInv window s) (hs : NowaitStep window s a s') : StopInv s' := by
  cases hs with
  | install hl =>
    have hunset := Bool.eq_false_of_not_eq_true (hw.unset (by simp [hl]))
    exact h.of_idle (fun _ => rfl) rfl rfl id hunset
  | resume hl =>
    have hne : s.loop ≠ .starting ∧ s.waiter = false := by
      rcases hl with hl | hl | ⟨hl, hr⟩
      · exact ⟨by simp [hl], Bool.eq_false_of_not_eq_true (hw.unset (by simp [hl]))⟩
      · exact ⟨by simp [hl], Bool.eq_false_of_not_eq_true (hw.unset (by simp [hl]))⟩
      · have hset := hw.resolved hl
        rw [hr] at hset
        exact ⟨by simp [hl], by simpa using hset.symm⟩
    exact h.of_idle (fun _ => h.wake hne.1) rfl rfl id hne.2
  | test hl =>
    have hunset := Bool.eq_false_of_not_eq_true (hw.unset (by simp [hl]))
    have hwake := h.wake (by simp [hl])
    cases hstop : s.stop with
    | true => exact h.of_idle (fun _ => hwake) hstop.symm rfl id hunset
    | false =>
      -- nobody has called `request_stop` yet
      have hidle : s.stopper = .idle := by
        by_contra hne
        rw [h.stopped hne] at hstop
        cases hstop
      refine ⟨fun _ => hwake, ?_, nofun, ?_, ?_⟩
      · intro hne
        exact absurd hidle hne
      · intro hf
        exact absurd (hidle.symm.trans hf) (by simp)
      · intro hf
        exact absurd (hidle.symm.trans hf) (by simp)
  | call hl | full hl | accept hl | taken hl | refuse hl | rejected hl =>
    exact h.of_refilling (by rw [hl]; trivial) _ _ _ _ _ _
  | decide hl =>
    split
    · exact h.of_refilling (by rw [hl]; trivial) _ _ _ _ _ _
    · exact h.of_refilling (by rw [hl]; trivial) _ _ _ _ _ _
  | @complete call reasonCode =>
    rcases s.completed_cases window call reasonCode with ⟨heq, -⟩ | heq
    · rw [heq]
      exact ⟨h.wake, h.stopped, h.started, h.unwoken, h.coming⟩
    · rw [heq]
      refine ⟨h.wake, h.stopped, h.started, ?_, ?_⟩
      · intro hf
        exact ⟨(h.unwoken hf).1, rfl⟩
      · rintro hf (hr | hr)
        · exact h.coming hf (.inl hr)
        · cases hr
  | release hl hq =>
    have hwake := h.wake fun hs => by
      rw [hs] at hl
      exact hl
    exact h.of_idle (fun _ => hwake) rfl rfl hl.not_refilling rfl
  | setStop hi => exact ⟨h.wake, fun _ => rfl, nofun, nofun, nofun⟩
  | readWake hi =>
    have hstop := h.stopped (by simp [hi])
    refine ⟨h.wake, fun _ => hstop, ?_, ?_, ?_⟩
    · intro _
      simp only
      split <;> simp
    · intro hf
      -- `run.wake` is not set, so the coroutine has not tested `run.stop`
      have hunset : s.wake = false := by
        by_contra hset
        simp [hset] at hf
      have hl : s.loop = .starting := by
        by_contra hne
        rw [h.wake hne] at hunset
        cases hunset
      refine ⟨?_, Bool.eq_false_of_not_eq_true (hw.unset (by simp [hl]))⟩
      rw [hl]
      exact id
    · intro hf
      simp only at hf
      split at hf <;> cases hf
  | callWake hi =>
    have hstop := h.stopped (by simp [hi])
    exact ⟨h.wake, fun _ => hstop, nofun, nofun, fun _ _ => Nat.succ_pos _⟩

/-! ## The calls left -/

/-- A refill that can go on has room for another call. -/
def HasRoom (window : ℕ) (s : CapacityNowait) : Prop :=
  ∀ burst, s.loop = .filling burst → burst < window

theorem HasRoom.step {window : ℕ} {s s' : CapacityNowait} {a : NowaitAct} (hpos : 1 ≤ window)
    (h : HasRoom window s) (hs : NowaitStep window s a s') : HasRoom window s' := by
  intro b hb
  cases hs with
  | install | resume | call | full | accept | refuse | rejected => cases hb
  | test =>
    simp only at hb
    split at hb
    · cases hb
    · obtain rfl := Refill.filling.inj hb
      exact hpos
  | taken =>
    simp only at hb
    split at hb
    · cases hb
    · next hlt =>
      obtain rfl := Refill.filling.inj hb
      exact not_le.1 hlt
  | decide => split at hb <;> cases hb
  | @complete call reasonCode =>
    rcases s.completed_cases window call reasonCode with ⟨heq, -⟩ | heq
    · rw [heq] at hb
      exact h b hb
    · rw [heq] at hb
      exact h b hb
  | release | setStop | readWake | callWake => exact h b hb

/-- **Once `run.stop` is set the calls of the current refill are the last.** -/
theorem NowaitStep.calls_add_left_le {window : ℕ} {s s' : CapacityNowait} {a : NowaitAct}
    (hs : NowaitStep window s a s') (hroom : HasRoom window s) (hstop : s.stop = true) :
    s'.stop = true ∧ s'.calls + s'.loop.left window ≤ s.calls + s.loop.left window := by
  cases hs with
  | install hl | full hl | accept hl | refuse hl | rejected hl =>
    exact ⟨hstop, Nat.add_le_add_left (by simp [hl, Refill.left]) _⟩
  | resume hl => exact ⟨hstop, Nat.add_le_add_left (Nat.zero_le _) _⟩
  | test hl => exact ⟨hstop, Nat.add_le_add_left (by simp [hstop, Refill.left]) _⟩
  | @call burst hl =>
    have hlt := hroom burst hl
    refine ⟨hstop, ?_⟩
    simp only [hl, Refill.left]
    omega
  | @taken burst hl =>
    refine ⟨hstop, Nat.add_le_add_left ?_ _⟩
    simp only [hl]
    split <;> simp [Refill.left]
  | decide hl =>
    split
    · exact ⟨hstop, Nat.add_le_add_left (Nat.zero_le _) _⟩
    · exact ⟨hstop, Nat.add_le_add_left (Nat.zero_le _) _⟩
  | @complete call reasonCode =>
    rcases s.completed_cases window call reasonCode with ⟨heq, -⟩ | heq
    · rw [heq]
      exact ⟨hstop, le_rfl⟩
    · rw [heq]
      exact ⟨hstop, le_rfl⟩
  | release | readWake | callWake => exact ⟨hstop, le_rfl⟩
  | setStop => exact ⟨rfl, le_rfl⟩

/-! ## Every reachable state -/

theorem nowaitInv {window : ℕ} (hpos : 1 ≤ window) :
    Invariant (· = CapacityNowait.init) (NowaitStep window) fun s =>
      (InFlightInv window s ∧ HasRoom window s) ∧ WaiterInv window s ∧ StopInv s where
  init h := by
    rw [h]
    exact ⟨⟨inFlightInv_init window, fun _ hb => by cases hb⟩, waiterInv_init window, stopInv_init⟩
  step h hs :=
    ⟨⟨h.1.1.step hs, h.1.2.step hpos hs⟩, h.2.1.step hs, h.2.2.step h.2.1 hs⟩

/-- What holds of one state of the loop. -/
structure Awake (window : ℕ) (s : CapacityNowait) : Prop where
  /-- Outside of a call, what the counters say is in flight is. -/
  counted : ¬ s.loop.InCall → s.run.inFlight = s.pending.card
  bounded : 0 ≤ s.run.inFlight ∧ s.run.inFlight ≤ window
  /-- Who waits has enough in flight for a completion to wake it. -/
  parked : s.loop = .parked → s.resolved = false →
    lowWater window < s.run.inFlight ∧ s.pending.Nonempty
  /-- Who waits is about to be released once `run.stop` is set. -/
  stopping : s.loop = .parked → s.resolved = false → s.stop = true →
    s.stopper = .stopping ∨ s.stopper = .waking ∨ 0 < s.queued
  /-- Once `run.stop` is set nothing is called after the current refill. -/
  last : s.stop = true → ∀ s', Reachable (· = s) (NowaitStep window) s' →
    s'.calls ≤ s.calls + s.loop.left window

theorem Refill.undecided_of_not_inCall {loop : Refill} (h : ¬ loop.InCall) :
    loop.undecided = 0 := by
  cases loop <;> first | rfl | exact absurd trivial h

theorem lowWater_nonneg {window : ℕ} (hpos : 1 ≤ window) : 0 ≤ lowWater window := by
  unfold lowWater
  omega

/-- The calls of every state that a stopped one leads to. -/
theorem HasRoom.calls_le {window : ℕ} {s s' : CapacityNowait} (hpos : 1 ≤ window)
    (hroom : HasRoom window s) (hstop : s.stop = true)
    (h : Reachable (· = s) (NowaitStep window) s') : s'.calls ≤ s.calls + s.loop.left window := by
  have hinv : Invariant (· = s) (NowaitStep window) fun t => HasRoom window t ∧ t.stop = true ∧
      t.calls + t.loop.left window ≤ s.calls + s.loop.left window := by
    refine ⟨?_, ?_⟩
    · rintro t rfl
      exact ⟨hroom, hstop, le_rfl⟩
    · rintro t a t' ⟨ht, hst, hle⟩ hs
      obtain ⟨hst', hle'⟩ := hs.calls_add_left_le ht hst
      exact ⟨ht.step hpos hs, hst', hle'.trans hle⟩
  have hle := (h.holds hinv).2.2
  omega

/-- **The window is kept, and no completion and no stop is missed**, for every window, every
pattern of refusals and every order of the steps. -/
theorem pubCapacityNowait_awake (window : ℕ) (hpos : 1 ≤ window) (s : CapacityNowait)
    (h : Reachable (· = CapacityNowait.init) (NowaitStep window) s) : Awake window s := by
  obtain ⟨⟨hflight, hroom⟩, hwaiter, hstop⟩ := h.holds (nowaitInv hpos)
  have hset : s.loop = .parked → s.resolved = false → s.waiter = true := by
    intro hl hr
    have hres := hwaiter.resolved hl
    rw [hr] at hres
    simpa using hres.symm
  refine ⟨?_, ⟨?_, hflight.bounded⟩, ?_, ?_, fun hst s' => hroom.calls_le hpos hst⟩
  · intro hcall
    rw [hflight.inFlight, Refill.undecided_of_not_inCall hcall, Nat.cast_zero, add_zero]
  · rw [hflight.inFlight]
    positivity
  · intro hl hr
    have habove := hwaiter.above (hset hl hr)
    have hcount := hflight.inFlight
    rw [hl] at hcount
    have hlow := lowWater_nonneg hpos
    refine ⟨habove, Finset.card_pos.1 ?_⟩
    simp only [Refill.undecided] at hcount
    omega
  · intro hl hr hst
    cases hstopper : s.stopper with
    | idle => exact absurd hstopper (hstop.started hst)
    | stopping => exact .inl rfl
    | waking => exact .inr (.inl rfl)
    | finished woke =>
      cases woke with
      | true => exact .inr (.inr (hstop.coming hstopper (.inr (hset hl hr))))
      | false =>
        have hunset := (hstop.unwoken hstopper).2
        rw [hset hl hr] at hunset
        cases hunset

/-- A window of one that is full, with the stop on its way. -/
theorem pubCapacityNowait_awake_example : ∃ s : CapacityNowait,
    s.loop = .parked ∧ s.resolved = false ∧ s.stop = true ∧ s.queued = 1 ∧ Awake 1 s := by
  have h0 : Reachable (· = CapacityNowait.init) (NowaitStep 1) CapacityNowait.init := .start rfl
  have h1 := h0.next (a := .install) (.install rfl)
  have h2 := h1.next (a := .resume) (.resume (.inl rfl))
  have h3 := h2.next (a := .test) (.test rfl)
  have h4 := h3.next (a := .call) (.call rfl (by decide))
  have h5 := h4.next (a := .accept) (.accept rfl)
  have h6 := h5.next (a := .taken) (.taken rfl)
  have h7 := h6.next (a := .decide) (.decide rfl)
  have h8 := h7.next (a := .setStop) (.setStop rfl)
  have h9 := h8.next (a := .readWake) (.readWake rfl)
  have h10 := h9.next (a := .callWake) (.callWake rfl)
  exact ⟨_, rfl, rfl, rfl, rfl, pubCapacityNowait_awake 1 le_rfl _ h10⟩

end Drive
