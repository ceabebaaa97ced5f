import MqttBench.Drive.Nowait
import MqttBench.Lib.Permits

/-!
# The capacity loop, published synchronously

`pub_capacity_sync` of `bench/drive.py`, with the completion callbacks of the library's
own threads and the `Timer` thread of `bench/worker.py`.  All of them put tokens to one
queue; a step is what one thread does before another one can be scheduled.

* `SyncStep` — the system.
* `SyncStep.move` — each step is one move of the permits of an abstract pool.
* `SyncInv` — its invariant: the stop token is in the queue until the loop has seen it.
* `pubCapacitySync_window` — **tokens are neither lost nor made**: the window is never
  exceeded, and after a token put behind the stop nothing is published.
-/

namespace Drive

open Runs Permits

/-! ## Stopping -/

/-- Where the `Timer` thread stands in `request_stop`. -/
inductive Stopper
  | idle
  /-- `run.stop` is set; `run.wake` is read next. -/
  | stopping
  /-- `run.wake` was there and is called next. -/
  | waking
  /-- It returned; `woke` says whether `run.wake` was called. -/
  | finished (woke : Bool)
  deriving DecidableEq

/-- Whether the stop token was put. -/
def Stopper.woke : Stopper → ℕ
  | .finished true => 1
  | _ => 0

/-! ## The program -/

/-- A token.  `late` is a record for the statements: whether `run.stop` was set when the
token was put. -/
structure Token where
  late : Bool
  deriving DecidableEq

/-- Where the main thread stands in `pub_capacity_sync`. -/
inductive Loop
  /-- `left` of the window's tokens are still to be put; `run.wake` is set after the last. -/
  | filling (left : ℕ)
  /-- In `get()`. -/
  | waiting
  /-- It holds a token; `run.stop` is tested next. -/
  | taken
  /-- In `publish`; the library has not decided yet. -/
  | calling
  /-- In `publish`; the library took the message. -/
  | accepted
  /-- `publish` returned a refusal. -/
  | refused
  | returned
  deriving DecidableEq

/-- How many tokens the loop holds, or has still to put. -/
def Loop.held : Loop → ℕ
  | .filling left => left
  | .taken | .calling | .refused | .returned => 1
  | _ => 0

/-- The state of a run.  `calls` numbers the calls of `publish`; `outstanding` are those
accepted whose completion has not put its token, and `counted` those of them whose
completion has been counted.  `tokens` is a record of the tokens taken. -/
structure CapacitySync where
  run : Run
  queue : List Token
  loop : Loop
  stop : Bool
  /-- Whether `run.wake` is set. -/
  wake : Bool
  stopper : Stopper
  calls : ℕ
  outstanding : Finset ℕ
  counted : Finset ℕ
  tokens : List Token

/-- The state when the loop is called. -/
def CapacitySync.init (window : ℕ) : CapacitySync where
  run := Run.init
  queue := []
  loop := .filling window
  stop := false
  wake := false
  stopper := .idle
  calls := 0
  outstanding := ∅
  counted := ∅
  tokens := []

/-- `put(None)`. -/
def CapacitySync.put (s : CapacitySync) : CapacitySync :=
  { s with queue := s.queue ++ [⟨s.stop⟩] }

/-- What a thread can do next. -/
inductive SyncAct
  | fill
  | install
  | get
  | test
  | accept
  | refuse
  | sent
  | rejected
  | complete (call reasonCode : ℕ)
  | notify (call : ℕ)
  | setStop
  | readWake
  | callWake
  deriving DecidableEq

/-- One step of one thread.  The library completes each accepted publish at most once, on
any thread, from the moment it takes the message. -/
inductive SyncStep : CapacitySync → SyncAct → CapacitySync → Prop
  | fill {s : CapacitySync} {left : ℕ} : s.loop = .filling (left + 1) →
      SyncStep s .fill { s.put with loop := .filling left }
  /-- `run.wake = ...`, and the sleep until `t_start`. -/
  | install {s : CapacitySync} : s.loop = .filling 0 →
      SyncStep s .install { s with wake := true, loop := .waiting }
  | get {s : CapacitySync} {token : Token} {queue : List Token} :
      s.loop = .waiting → s.queue = token :: queue →
      SyncStep s .get { s with queue, loop := .taken, tokens := s.tokens ++ [token] }
  /-- `if run.stop: break`. -/
  | test {s : CapacitySync} : s.loop = .taken →
      SyncStep s .test { s with loop := if s.stop then .returned else .calling }
  | accept {s : CapacitySync} : s.loop = .calling →
      SyncStep s .accept { s with
        loop := .accepted
        calls := s.calls + 1
        outstanding := insert s.calls s.outstanding }
  | refuse {s : CapacitySync} : s.loop = .calling →
      SyncStep s .refuse { s with loop := .refused, calls := s.calls + 1 }
  /-- `publish` returned `rc == 0`. -/
  | sent {s : CapacitySync} : s.loop = .accepted →
      SyncStep s .sent { s with
        loop := .waiting
        run := { s.run with sent := s.run.sent + 1 } }
  | rejected {s : CapacitySync} : s.loop = .refused →
      SyncStep s .rejected { s.put with
        loop := .waiting
        run := { s.run with rejected := s.run.rejected + 1 } }
  /-- `on_publish` counts a completion. -/
  | complete {s : CapacitySync} {call reasonCode : ℕ} :
      call ∈ s.outstanding → call ∉ s.counted →
      SyncStep s (.complete call reasonCode) { s with
        run := completionCallback s.run reasonCode
        counted := insert call s.counted }
  /-- `on_publish` calls `on_complete`, which puts a token. -/
  | notify {s : CapacitySync} {call : ℕ} : call ∈ s.counted →
      SyncStep s (.notify call) { s.put with
        outstanding := s.outstanding.erase call
        counted := s.counted.erase call }
  /-- `self.stop = True`. -/
  | setStop {s : CapacitySync} : s.stopper = .idle →
      SyncStep s .setStop { s with stop := true, stopper := .stopping }
  /-- `if self.wake is not None`. -/
  | readWake {s : CapacitySync} : s.stopper = .stopping →
      SyncStep s .readWake
        { s with stopper := if s.wake then .waking else .finished false }
  /-- `self.wake()`, which puts the stop token. -/
  | callWake {s : CapacitySync} : s.stopper = .waking →
      SyncStep s .callWake { s.put with stopper := .finished true }

/-! ## The stop -/

/-- The `Timer` thread and `run.wake`. -/
structure Wired (s : CapacitySync) : Prop where
  /-- `run.wake` is not set before the window's tokens are put. -/
  unset : ∀ left, s.loop = .filling left → s.wake = false
  unwoken : s.wake = false → s.stopper ≠ .waking ∧ s.stopper.woke = 0
  stopped : s.stopper ≠ .idle → s.stop = true

theorem wired_init (window : ℕ) : Wired (CapacitySync.init window) where
  unset _ _ := rfl
  unwoken _ := ⟨by simp [CapacitySync.init], rfl⟩
  stopped h := absurd rfl h

theorem Wired.step {s s' : CapacitySync} {a : SyncAct} (h : Wired s) (hs : SyncStep s a s') :
    Wired s' := by
  cases hs with
  | fill hl => exact ⟨fun _ _ => h.unset _ hl, h.unwoken, h.stopped⟩
  | install hl => exact ⟨fun _ hf => (by cases hf), fun hw => (by cases hw), h.stopped⟩
  | get | accept | refuse | sent | rejected =>
    exact ⟨fun _ hf => (by cases hf), h.unwoken, h.stopped⟩
  | test hl =>
    refine ⟨?_, h.unwoken, h.stopped⟩
    intro left hf
    simp only at hf
    split at hf <;> cases hf
  | complete => exact ⟨h.unset, h.unwoken, h.stopped⟩
  | notify => exact ⟨h.unset, h.unwoken, h.stopped⟩
  | setStop => exact ⟨h.unset, fun _ => ⟨by simp, rfl⟩, fun _ => rfl⟩
  | readWake hi =>
    refine ⟨h.unset, ?_, fun _ => h.stopped (by simp [hi])⟩
    intro hw
    simp only at hw
    simp [hw, Stopper.woke]
  | callWake hi =>
    refine ⟨h.unset, ?_, fun _ => h.stopped (by simp [hi])⟩
    intro hw
    exact absurd hi (h.unwoken hw).1

theorem Stopper.ne_idle_of_woke {s : Stopper} (h : s.woke = 1) : s ≠ .idle := by
  rintro rfl
  cases h

theorem Stopper.woke_cases (s : Stopper) : s.woke = 0 ∨ s.woke = 1 := by
  unfold Stopper.woke
  split
  · exact .inr rfl
  · exact .inl rfl

/-! ## The counters -/

/-- What the counters say of the publishes. -/
structure Counted (s : CapacitySync) : Prop where
  /-- Every call counted is outstanding, and every outstanding one was made. -/
  counted : s.counted ⊆ s.outstanding
  made : ∀ call ∈ s.outstanding, call < s.calls
  /-- Every accepted publish is sent, but for the one whose call has not returned. -/
  sent : s.run.sent + (if s.loop = .accepted then 1 else 0) =
    s.run.done + s.run.failed + (s.outstanding \ s.counted).card

theorem counted_init (window : ℕ) : Counted (CapacitySync.init window) where
  counted := Finset.Subset.refl _
  made _ h := absurd h (Finset.notMem_empty _)
  sent := rfl

/-- A call that is made now is not outstanding. -/
theorem Counted.fresh {s : CapacitySync} (h : Counted s) : s.calls ∉ s.outstanding :=
  fun hm => absurd (h.made _ hm) (lt_irrefl _)

theorem completionCallback_sum (run : Run) (reasonCode : ℕ) :
    (completionCallback run reasonCode).done + (completionCallback run reasonCode).failed =
      run.done + run.failed + 1 ∧ (completionCallback run reasonCode).sent = run.sent := by
  unfold completionCallback
  split
  · exact ⟨by simp only; ring, rfl⟩
  · exact ⟨by simp only; ring, rfl⟩

theorem Counted.step {s s' : CapacitySync} {a : SyncAct} (h : Counted s)
    (hs : SyncStep s a s') : Counted s' := by
  have hsent := h.sent
  cases hs with
  | fill hl | install hl | get hl | rejected hl =>
    rw [hl] at hsent
    exact ⟨h.counted, h.made, hsent⟩
  | test hl =>
    refine ⟨h.counted, h.made, ?_⟩
    rw [hl] at hsent
    have hne : (if s.stop then Loop.returned else Loop.calling) ≠ .accepted := by
      split <;> simp
    simp only [if_neg hne]
    exact hsent
  | accept hl =>
    have hnew : s.calls ∉ s.counted := fun hm => h.fresh (h.counted hm)
    have hsdiff : (insert s.calls s.outstanding \ s.counted).card =
        (s.outstanding \ s.counted).card + 1 := by
      rw [Finset.insert_sdiff_of_notMem _ hnew, Finset.card_insert_of_notMem fun hm =>
        h.fresh (Finset.mem_sdiff.1 hm).1]
    refine ⟨h.counted.trans (Finset.subset_insert _ _), ?_, ?_⟩
    · intro call hcall
      rcases Finset.mem_insert.1 hcall with rfl | hcall
      · exact Nat.lt_succ_self _
      · exact (h.made call hcall).trans (Nat.lt_succ_self _)
    · rw [hl] at hsent
      simp only [hsdiff, if_true]
      simp only [reduceCtorEq, if_false] at hsent
      push_cast
      omega
  | refuse hl =>
    rw [hl] at hsent
    exact ⟨h.counted, fun call hc => (h.made call hc).trans (Nat.lt_succ_self _), hsent⟩
  | sent hl =>
    refine ⟨h.counted, h.made, ?_⟩
    rw [hl] at hsent
    simpa using hsent
  | @complete call reasonCode hout hnew =>
    obtain ⟨hsum, hkept⟩ := completionCallback_sum s.run reasonCode
    have hsdiff : (s.outstanding \ insert call s.counted).card + 1 =
        (s.outstanding \ s.counted).card := by
      rw [Finset.sdiff_insert, Finset.card_erase_add_one (Finset.mem_sdiff.2 ⟨hout, hnew⟩)]
    refine ⟨Finset.insert_subset hout h.counted, h.made, ?_⟩
    simp only [hsum, hkept]
    rw [hsent, ← hsdiff]
    push_cast
    ring
  | @notify call hcall =>
    have hsdiff : s.outstanding.erase call \ s.counted.erase call =
        s.outstanding \ s.counted := by
      ext x
      simp only [Finset.mem_sdiff, Finset.mem_erase]
      by_cases hx : x = call
      · simp [hx, hcall]
      · simp [hx]
    refine ⟨Finset.erase_subset_erase call h.counted,
      fun x hx => h.made x (Finset.mem_of_mem_erase hx), ?_⟩
    simp only [hsdiff]
    exact hsent
  | setStop | readWake | callWake => exact ⟨h.counted, h.made, hsent⟩

/-! ## The tokens -/

/-- The permits of a state: the tokens in the queue, the one the loop holds, and the
accepted publishes not completed yet. -/
def CapacitySync.pool (s : CapacitySync) : Pool :=
  ⟨s.queue.length, s.loop.held, s.outstanding.card⟩

/-- **Each step moves one permit at most**, and only the stop token adds one. -/
theorem SyncStep.move {s s' : CapacitySync} {a : SyncAct} (hs : SyncStep s a s')
    (h : Counted s) :
    ∃ added, Move s.pool added s'.pool ∧ s'.stopper.woke = s.stopper.woke + added := by
  cases hs with
  | fill hl | rejected hl =>
    refine ⟨0, ?_, rfl⟩
    simp only [CapacitySync.pool, CapacitySync.put, hl, Loop.held, List.length_append,
      List.length_singleton]
    exact .giveBack
  | install hl | refuse hl | sent hl =>
    refine ⟨0, ?_, rfl⟩
    simp only [CapacitySync.pool, hl, Loop.held]
    exact .stay
  | get hl hq =>
    refine ⟨0, ?_, rfl⟩
    simp only [CapacitySync.pool, hl, hq, Loop.held, List.length_cons]
    exact .take
  | test hl =>
    refine ⟨0, ?_, rfl⟩
    have hheld : s.loop.held = (if s.stop then Loop.returned else Loop.calling).held := by
      rw [hl]
      split <;> rfl
    rw [CapacitySync.pool, hheld]
    exact .stay
  | accept hl =>
    refine ⟨0, ?_, rfl⟩
    simp only [CapacitySync.pool, hl, Loop.held, Finset.card_insert_of_notMem h.fresh]
    exact .use
  | complete => exact ⟨0, .stay, rfl⟩
  | @notify call hc =>
    refine ⟨0, ?_, rfl⟩
    have hcard := Finset.card_erase_add_one (h.counted hc)
    simp only [CapacitySync.pool, CapacitySync.put, List.length_append, List.length_singleton,
      ← hcard]
    exact .release
  | setStop hi =>
    refine ⟨0, .stay, ?_⟩
    rw [hi]
    rfl
  | readWake hi =>
    refine ⟨0, .stay, ?_⟩
    rw [hi]
    change (if s.wake then Stopper.waking else .finished false).woke = 0
    split <;> rfl
  | callWake hi =>
    refine ⟨1, ?_, ?_⟩
    · simp only [CapacitySync.pool, CapacitySync.put, List.length_append, List.length_singleton]
      exact .add
    · rw [hi]
      rfl

/-- What the threads know of each other, and the permits. -/
theorem syncPermits (window : ℕ) : Invariant (· = CapacitySync.init window) SyncStep
    fun s => (Wired s ∧ Counted s) ∧ s.pool.total = window + s.stopper.woke := by
  have hwired : Invariant (· = CapacitySync.init window) SyncStep Wired := by
    refine ⟨?_, fun h hs => h.step hs⟩
    rintro s rfl
    exact wired_init window
  have hcounted := hwired.and (Q := Counted) (by rintro s rfl; exact counted_init window)
    fun _ h hs => h.step hs
  apply Permits.conserved hcounted
  · rintro s rfl
    simp [CapacitySync.init, CapacitySync.pool, Pool.total, Loop.held, Stopper.woke]
  · exact fun h hs => hs.move h.2

/-- Which tokens are where. -/
structure SyncInv (s : CapacitySync) : Prop where
  /-- The stop token is in the queue, or the loop has a token and will return. -/
  stopToken : s.stopper.woke = 1 → s.loop = .taken ∨ s.loop = .returned ∨ s.queue ≠ []
  /-- While `run.stop` is not set no token is late. -/
  early : s.stop = false → ∀ token ∈ s.queue ++ s.tokens, token.late = false
  /-- What was taken before the test that let a publish start was put before the stop. -/
  credit : s.loop ≠ .taken → s.loop ≠ .returned → ∀ token ∈ s.tokens, token.late = false

theorem syncInv_init (window : ℕ) : SyncInv (CapacitySync.init window) where
  stopToken h := by cases h
  early _ _ ht := absurd ht List.not_mem_nil
  credit _ _ _ ht := absurd ht List.not_mem_nil

/-- A loop that can still publish has not taken the stop token. -/
theorem SyncInv.queue_ne_nil {s : CapacitySync} (h : SyncInv s)
    (hw : s.stopper.woke = 1) (htaken : s.loop ≠ .taken) (hreturned : s.loop ≠ .returned) :
    s.queue ≠ [] :=
  ((h.stopToken hw).resolve_left htaken).resolve_left hreturned

theorem CapacitySync.put_queue_ne_nil (s : CapacitySync) : s.put.queue ≠ [] := by
  simp [CapacitySync.put]

/-- What is put before the stop is not late. -/
theorem SyncInv.early_put {s : CapacitySync} (h : SyncInv s)
    (hstop : s.stop = false) : ∀ token ∈ s.put.queue ++ s.tokens, token.late = false := by
  intro token ht
  rcases List.mem_append.1 ht with hq | hq
  · rcases List.mem_append.1 hq with hq | hq
    · exact h.early hstop token (List.mem_append_left _ hq)
    · rw [List.mem_singleton.1 hq]
      exact hstop
  · exact h.early hstop token (List.mem_append_right _ hq)

/-- **Every step keeps the tokens where they should be.** -/
theorem SyncInv.step {s s' : CapacitySync} {a : SyncAct} (h : SyncInv s) (hwired : Wired s)
    (hs : SyncStep s a s') : SyncInv s' := by
  cases hs with
  | fill hl =>
    have hcredit := h.credit (by simp [hl]) (by simp [hl])
    exact ⟨fun _ => .inr (.inr s.put_queue_ne_nil), h.early_put, fun _ _ => hcredit⟩
  | install hl | accept hl | refuse hl | sent hl =>
    have hqueue := fun hw => h.queue_ne_nil hw (by simp [hl]) (by simp [hl])
    have hcredit := h.credit (by simp [hl]) (by simp [hl])
    exact ⟨fun hw => .inr (.inr (hqueue hw)), h.early, fun _ _ => hcredit⟩
  | @get token queue hl hq =>
    refine ⟨fun _ => .inl rfl, ?_, fun hne _ => absurd rfl hne⟩
    -- the token has moved from the queue to those taken
    intro hstop t ht
    apply h.early hstop t
    rw [hq]
    simp only [List.mem_append, List.mem_cons, List.not_mem_nil, or_false] at ht ⊢
    tauto
  | test hl =>
    refine ⟨?_, h.early, ?_⟩
    · intro hw
      have hstop : s.stop = true := hwired.stopped (Stopper.ne_idle_of_woke hw)
      exact .inr (.inl (if_pos hstop))
    · intro _ hne token ht
      have hstop : s.stop = false := by
        by_contra hstop
        exact hne (if_pos (Bool.not_eq_false _ ▸ hstop))
      exact h.early hstop token (List.mem_append_right _ ht)
  | rejected hl =>
    have hcredit := h.credit (by simp [hl]) (by simp [hl])
    exact ⟨fun _ => .inr (.inr s.put_queue_ne_nil), h.early_put, fun _ _ => hcredit⟩
  | complete => exact ⟨h.stopToken, h.early, h.credit⟩
  | notify => exact ⟨fun _ => .inr (.inr s.put_queue_ne_nil), h.early_put, h.credit⟩
  | setStop hi =>
    exact ⟨fun hw => (by cases hw), fun hstop => (by cases hstop), h.credit⟩
  | readWake hi =>
    refine ⟨?_, h.early, h.credit⟩
    intro hw
    simp only at hw
    split at hw <;> cases hw
  | callWake hi => exact ⟨fun _ => .inr (.inr s.put_queue_ne_nil), h.early_put, h.credit⟩

theorem syncInv (window : ℕ) : Invariant (· = CapacitySync.init window) SyncStep fun s =>
    ((Wired s ∧ Counted s) ∧ s.pool.total = window + s.stopper.woke) ∧ SyncInv s := by
  apply (syncPermits window).and
  · rintro s rfl
    exact syncInv_init window
  · exact fun h hinv hs => hinv.step h.1.1 hs

/-! ## The window -/

/-- What holds of one state of the loop. -/
structure TokenWindow (window : ℕ) (s : CapacitySync) : Prop where
  /-- The tokens in the queue, those the loop holds or has still to put and the accepted
  publishes not completed yet are the window, and one more once the stop token was put. -/
  conserved : s.queue.length + s.loop.held + s.outstanding.card = window + s.stopper.woke
  /-- No more than the window is ever outstanding. -/
  bounded : s.outstanding.card ≤ window
  /-- The loop waits on an empty queue only for a whole window. -/
  blocked : s.loop = .waiting → s.queue = [] → s.outstanding.card = window
  /-- No publish starts once a token was taken that was put when `run.stop` was set. -/
  credit : s.loop = .calling → ∀ token ∈ s.tokens, token.late = false
  /-- What the counters say is outstanding is, but for the call that has not returned. -/
  counters : s.run.inFlight + (if s.loop = .accepted then 1 else 0) ≤ window

theorem SyncInv.tokenWindow {window : ℕ} {s : CapacitySync} (h : SyncInv s)
    (hcounted : Counted s) (hpool : s.pool.total = window + s.stopper.woke) :
    TokenWindow window s := by
  have htotal : s.queue.length + s.loop.held + s.outstanding.card = window + s.stopper.woke :=
    hpool
  have hbounded : s.outstanding.card ≤ window := by
    rcases s.stopper.woke_cases with hw | hw
    · omega
    · -- one more token is in the queue, or in the hands of a loop that will return
      rcases h.stopToken hw with hl | hl | hq
      · simp only [hl, Loop.held] at htotal
        omega
      · simp only [hl, Loop.held] at htotal
        omega
      · have hpos := List.length_pos_of_ne_nil hq
        omega
  refine ⟨htotal, hbounded, ?_, ?_, ?_⟩
  · intro hl hq
    rcases s.stopper.woke_cases with hw | hw
    · simp only [hl, hq, hw, Loop.held, List.length_nil] at htotal
      omega
    · exact absurd hq (h.queue_ne_nil hw (by simp [hl]) (by simp [hl]))
  · intro hl
    exact h.credit (by simp [hl]) (by simp [hl])
  · have hsent := hcounted.sent
    have hle : (s.outstanding \ s.counted).card ≤ s.outstanding.card :=
      Finset.card_le_card Finset.sdiff_subset
    unfold Run.inFlight
    omega

/-- **Tokens are neither lost nor made**, for every window, every pattern of refusals and
every order of completions, whenever the run is stopped. -/
theorem pubCapacitySync_window (window : ℕ) (s : CapacitySync)
    (h : Reachable (· = CapacitySync.init window) SyncStep s) : TokenWindow window s :=
  have hinv := h.holds (syncInv window)
  hinv.2.tokenWindow hinv.1.1.2 hinv.1.2

/-- A window of one, with its publish taken and not completed. -/
theorem pubCapacitySync_window_example : ∃ s : CapacitySync,
    s.outstanding = {0} ∧ s.queue = [] ∧ TokenWindow 1 s := by
  have h0 : Reachable (· = CapacitySync.init 1) SyncStep (CapacitySync.init 1) := .start rfl
  have h1 := h0.next (a := .fill) (.fill rfl)
  have h2 := h1.next (a := .install) (.install rfl)
  have h3 := h2.next (a := .get) (.get rfl rfl)
  have h4 := h3.next (a := .test) (.test rfl)
  have h5 := h4.next (a := .accept) (.accept rfl)
  exact ⟨_, rfl, rfl, pubCapacitySync_window 1 _ h5⟩

end Drive
