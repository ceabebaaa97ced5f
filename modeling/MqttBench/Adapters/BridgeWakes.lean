import MqttBench.Lib.Traces

/-!
# The wake-ups of the asyncio bridge

`schedule_coro`, `schedule_call`, `_drain_pending`, `start` and `stop` of
`adapters/async_bridge.py`, one access to the shared attributes at a time.  Any thread may call
any of them at any moment; a bridge thread is known by the number of its loop, and a call that
is made on the bridge thread does not touch the queues: all it does is `call_soon`.

* `Bridge.step` — the program, and the loops.
* `Calm` — the steps that do not let a schedule call into a bridge that is being stopped.
* `Sound` — what every calm step keeps; `Sound.step` — it does.
* `wakes_are_kept` — **in a calm run, work that waits has its wake-up.**
-/

namespace Adapters

open Traces

/-! ## The loops -/

/-- A callback on a loop. -/
inductive Callback
  | drainPending
  | closePool
  | stop
  | other
  deriving DecidableEq

/-- Where `_drain_pending` stands: before its lock, or at the calls and coroutines it took. -/
inductive Drain
  | atLock
  | working
  deriving DecidableEq

/-- The life of a bridge thread: before its loop is there, in `run_forever`, at the tasks that
are left, behind `loop.close()`, and over. -/
inductive Phase
  | booting
  | running
  | cleaning
  | closed
  | dead
  deriving DecidableEq

/-- A bridge thread with its loop.  `todo` is what is left of the turn: the callbacks that were
ready when it began. -/
structure LoopThread where
  phase : Phase
  ready : List Callback
  todo : ℕ
  stopping : Bool
  executing : Option Drain
  deriving DecidableEq

/-- A step of a bridge thread that touches its own loop only. -/
inductive LoopAct
  | boot
  | turn
  | runNext
  | worked
  /-- A call raised what `except Exception` does not catch, such as `CancelledError`. -/
  | raised
  | callSoon
  | leave
  | close
  | exit
  deriving DecidableEq

namespace LoopThread

def fresh : LoopThread := ⟨.booting, [], 0, false, none⟩

/-- Nothing is being executed, and the turn is over. -/
def Between (x : LoopThread) : Prop := x.todo = 0 ∧ x.executing = none

instance (x : LoopThread) : Decidable x.Between :=
  inferInstanceAs (Decidable (x.todo = 0 ∧ x.executing = none))

/-- `loop.call_soon(callback)`. -/
def push (x : LoopThread) (cb : Callback) : LoopThread := { x with ready := x.ready ++ [cb] }

/-- A callback begins.  `loop.stop` ends `run_forever` after the turn. -/
def begin (x : LoopThread) : Callback → LoopThread
  | .drainPending => { x with executing := some .atLock }
  | .stop => { x with stopping := true }
  | .closePool => x
  | .other => x

def act (x : LoopThread) : LoopAct → LoopThread
  | .boot => if x.phase = .booting then { x with phase := .running } else x
  | .turn =>
    if x.Between ∧ (x.phase = .running ∧ x.stopping = false ∨ x.phase = .cleaning) then
      { x with todo := x.ready.length }
    else x
  | .runNext =>
    match x.todo, x.executing, x.ready with
    | todo + 1, none, cb :: ready => { x with todo := todo, ready := ready }.begin cb
    | _, _, _ => x
  | .worked => if x.executing = some .working then { x with executing := some .atLock } else x
  | .raised => if x.executing = some .working then { x with executing := none } else x
  | .callSoon => if x.phase = .running ∨ x.phase = .cleaning then x.push .other else x
  | .leave =>
    if x.Between ∧ x.phase = .running ∧ x.stopping = true then { x with phase := .cleaning } else x
  | .close =>
    if x.Between ∧ x.phase = .cleaning then { x with phase := .closed, ready := [] } else x
  | .exit => if x.phase = .closed then { x with phase := .dead } else x

end LoopThread

/-! ## The bridge -/

/-- What is scheduled. -/
inductive Work
  | coro (n : ℕ)
  | call (n : ℕ)
  deriving DecidableEq

/-- Where a thread stands in a call of the bridge. -/
inductive Pc
  | out
  /-- `schedule_*`, after the checks. -/
  | scheduling (work : Work)
  /-- `schedule_*`, after the locked section, with `wake`. -/
  | waking
  /-- It has read `self._loop`. -/
  | wakingOn (loop : ℕ)
  /-- `start`, after the check. -/
  | starting
  /-- `start`, in `ready.wait`. -/
  | startWait (loop : ℕ)
  /-- `stop`, before the locked section. -/
  | stopping (loop thread : ℕ)
  | stopLocked (loop thread : ℕ)
  | stopClosing (loop thread : ℕ)
  | stopJoin (thread : ℕ)
  | stopJoined
  | stopDropped
  deriving DecidableEq

/-- `AsyncioBridge`, the loops there ever were, and where every thread stands. -/
structure Bridge where
  loop : Option ℕ
  thread : Option ℕ
  pending : List ℕ
  pendingCalls : List ℕ
  drainScheduled : Bool
  loops : ℕ → LoopThread
  created : ℕ
  pc : ℕ → Pc

namespace Bridge

/-- `AsyncioBridge()`. -/
def init : Bridge := ⟨none, none, [], [], false, fun _ => .fresh, 0, fun _ => .out⟩

/-- Thread `t` goes on to `p`. -/
def go (s : Bridge) (t : ℕ) (p : Pc) : Bridge := { s with pc := Function.update s.pc t p }

def setLoop (s : Bridge) (l : ℕ) (x : LoopThread) : Bridge :=
  { s with loops := Function.update s.loops l x }

/-- `running`. -/
def Running (s : Bridge) : Prop :=
  s.loop ≠ none ∧ ∃ thread, s.thread = some thread ∧ (s.loops thread).phase ≠ .dead

instance (s : Bridge) : Decidable s.Running :=
  match h : s.thread with
  | none => isFalse fun ⟨_, _, hthread, _⟩ => by rw [h] at hthread; cases hthread
  | some thread => decidable_of_iff (s.loop ≠ none ∧ (s.loops thread).phase ≠ .dead) (by
      unfold Running
      simp [h])

/-- `loop.call_soon_threadsafe(callback)`; `none` is the error that a closed loop raises. -/
def callSoonThreadsafe (s : Bridge) (l : ℕ) (cb : Callback) : Option Bridge :=
  if (s.loops l).phase = .closed ∨ (s.loops l).phase = .dead then none
  else some (s.setLoop l ((s.loops l).push cb))

/-- The work joins its queue. -/
def put (s : Bridge) : Work → Bridge
  | .coro n => { s with pending := s.pending ++ [n] }
  | .call n => { s with pendingCalls := s.pendingCalls ++ [n] }

/-- The locked section of `schedule_coro` and `schedule_call`. -/
def enqueue (s : Bridge) (t : ℕ) (work : Work) : Bridge :=
  let s := s.put work
  if s.drainScheduled then s.go t .out
  else { s with drainScheduled := true }.go t .waking

/-- The next step of thread `t`. -/
def advance (s : Bridge) (t : ℕ) : Bridge :=
  match s.pc t with
  | .out => s
  | .scheduling work => s.enqueue t work
  | .waking =>
    match s.loop with
    | none => s.go t .out
    | some l => s.go t (.wakingOn l)
  | .wakingOn l => ((s.callSoonThreadsafe l .drainPending).getD s).go t .out
  | .starting =>
    { s.setLoop s.created .fresh with
      created := s.created + 1
      thread := some s.created }.go t (.startWait s.created)
  | .startWait l =>
    if (s.loops l).phase = .booting then s else { s with loop := some l }.go t .out
  | .stopping l thread =>
    { s with pending := [], pendingCalls := [], drainScheduled := false }.go t
      (.stopLocked l thread)
  | .stopLocked l thread =>
    match s.callSoonThreadsafe l .closePool with
    | none => s.go t .out
    | some s => s.go t (.stopClosing l thread)
  | .stopClosing l thread =>
    match s.callSoonThreadsafe l .stop with
    | none => s.go t .out
    | some s => s.go t (.stopJoin thread)
  | .stopJoin thread => if (s.loops thread).phase = .dead then s.go t .stopJoined else s
  | .stopJoined => { s with loop := none }.go t .stopDropped
  | .stopDropped => { s with thread := none }.go t .out

/-- A timeout: of `ready.wait` in `start`, which raises, or of `join` in `stop`. -/
def timeOut (s : Bridge) (t : ℕ) : Bridge :=
  match s.pc t with
  | .startWait l => if (s.loops l).phase = .booting then s.go t .out else s
  | .stopJoin _ => s.go t .stopJoined
  | _ => s

/-- The locked section of `_drain_pending` on loop `l`: the drain is over, or it takes all. -/
def drain (s : Bridge) (l : ℕ) : Bridge :=
  if (s.loops l).executing = some .atLock then
    if s.pending = [] ∧ s.pendingCalls = [] then
      { s with drainScheduled := false }.setLoop l { s.loops l with executing := none }
    else
      { s with pending := [], pendingCalls := [] }.setLoop l
        { s.loops l with executing := some .working }
  else s

end Bridge

/-- A step of one of the parties. -/
inductive BridgeAct
  | schedule (t : ℕ) (work : Work)
  | start (t : ℕ)
  | stop (t : ℕ)
  | advance (t : ℕ)
  | timeOut (t : ℕ)
  | loop (l : ℕ) (a : LoopAct)
  | drain (l : ℕ)
  deriving DecidableEq

namespace Bridge

/-- One step; a thread that is in a call makes no other. -/
def step (s : Bridge) : BridgeAct → Bridge
  | .schedule t work => if s.pc t = .out ∧ s.loop ≠ none then s.go t (.scheduling work) else s
  | .start t => if s.pc t = .out ∧ ¬ s.Running then s.go t .starting else s
  | .stop t =>
    match s.pc t, s.loop, s.thread with
    | .out, some l, some thread => s.go t (.stopping l thread)
    | _, _, _ => s
  | .advance t => s.advance t
  | .timeOut t => s.timeOut t
  | .loop l a => s.setLoop l ((s.loops l).act a)
  | .drain l => s.drain l

/-- A run from a new bridge. -/
def run (acts : List BridgeAct) : Bridge := acts.foldl step init

end Bridge

/-! ## What is claimed -/

/-- In `start` or `stop`, behind the check. -/
def Pc.Controls : Pc → Prop
  | .starting | .startWait _ | .stopping _ _ => True
  | .stopLocked _ _ | .stopClosing _ _ | .stopJoin _ | .stopJoined | .stopDropped => True
  | _ => False

/-- In `stop`, behind its locked section. -/
def Pc.PastLock : Pc → Prop
  | .stopLocked _ _ | .stopClosing _ _ | .stopJoin _ | .stopJoined | .stopDropped => True
  | _ => False

namespace Bridge

/-- Something is scheduled that no drain has taken. -/
def Waiting (s : Bridge) : Prop := s.pending ≠ [] ∨ s.pendingCalls ≠ []

/-- `_drain_pending` is queued on loop `l`, or executing there. -/
def Woken (s : Bridge) (l : ℕ) : Prop :=
  .drainPending ∈ (s.loops l).ready ∨ (s.loops l).executing ≠ none

/-- A schedule call stands between its locked section and its `call_soon_threadsafe`. -/
def Waking (s : Bridge) (l : ℕ) : Prop := ∃ t, s.pc t = .waking ∨ s.pc t = .wakingOn l

/-- No `stop` stands behind its locked section. -/
def Quiet (s : Bridge) : Prop := ∀ t, ¬ (s.pc t).PastLock

/-- While the bridge runs, what waits has a drain on the current loop. -/
def Kept (s : Bridge) : Prop := s.Running → s.Waiting → ∃ l, s.loop = some l ∧ s.Woken l

/-- `_drain_scheduled` is true only with a drain on the current loop. -/
def Honest (s : Bridge) : Prop := s.drainScheduled = true → ∃ l, s.loop = some l ∧ s.Woken l

/-- The step does not begin a `start` or `stop` while another one is under way, is not the locked
section of a schedule call between that of a `stop` and the next loop, and is not a call that
raises out of the drain that was announced. -/
def Calm (s : Bridge) : BridgeAct → Prop
  | .start _ => ∀ t, ¬ (s.pc t).Controls
  | .stop _ => ∀ t, ¬ (s.pc t).Controls
  | .advance t => ∀ work, s.pc t = .scheduling work → s.loop ≠ none ∧ s.Quiet
  | .loop l .raised => s.loop = some l → s.drainScheduled = false
  | _ => True

end Bridge

/-! ## One loop -/

namespace LoopThread

/-- Nobody has asked the loop to stop. -/
structure Unstopped (x : LoopThread) : Prop where
  phase : x.phase = .booting ∨ x.phase = .running
  stopping : x.stopping = false
  ready : .stop ∉ x.ready

/-- It runs, and nobody has asked it to stop. -/
structure Live (x : LoopThread) : Prop where
  phase : x.phase = .running
  stopping : x.stopping = false
  ready : .stop ∉ x.ready

/-- A drain is queued or executing. -/
def Draining (x : LoopThread) : Prop := .drainPending ∈ x.ready ∨ x.executing ≠ none

/-- A step does not stop a loop. -/
structure Stays (x x' : LoopThread) : Prop where
  unstopped : x.Unstopped → x'.Unstopped
  live : x.Live → x'.Live

/-- Nor does it lose a drain. -/
structure Goes (x x' : LoopThread) : Prop extends Stays x x' where
  draining : x.Live → x.Draining → x'.Draining

variable {x : LoopThread}

theorem Live.unstopped (h : x.Live) : x.Unstopped := ⟨.inr h.phase, h.stopping, h.ready⟩

theorem Goes.refl (x : LoopThread) : x.Goes x := ⟨⟨id, id⟩, fun _ => id⟩

theorem stays_turn (x : LoopThread) (todo : ℕ) (executing : Option Drain) :
    x.Stays { x with todo := todo, executing := executing } where
  unstopped h := ⟨h.phase, h.stopping, h.ready⟩
  live h := ⟨h.phase, h.stopping, h.ready⟩

/-- A turn begins, or a drain goes on. -/
theorem goes_turn (x : LoopThread) (todo : ℕ) {executing : Option Drain}
    (h : x.executing ≠ none → executing ≠ none) :
    x.Goes { x with todo := todo, executing := executing } where
  toStays := x.stays_turn todo executing
  draining _ hdraining := hdraining.imp_right h

/-- A step of a loop that has been stopped. -/
theorem Goes.of_not {x' : LoopThread} (h : ¬ x.Unstopped) : x.Goes x' :=
  ⟨⟨fun hx => absurd hx h, fun hx => absurd hx.unstopped h⟩, fun hx => absurd hx.unstopped h⟩

theorem goes_push (x : LoopThread) (cb : Callback) (hcb : cb ≠ .stop) : x.Goes (x.push cb) := by
  have hready : .stop ∉ x.ready → .stop ∉ x.ready ++ [cb] := by
    intro hnot hmem
    rcases List.mem_append.1 hmem with hmem | hmem
    · exact hnot hmem
    · exact hcb (List.mem_singleton.1 hmem).symm
  exact ⟨⟨fun h => ⟨h.phase, h.stopping, hready h.ready⟩,
    fun h => ⟨h.phase, h.stopping, hready h.ready⟩⟩,
    fun _ h => h.imp_left fun hmem => List.mem_append_left _ hmem⟩

/-- A callback that begins leaves the queue; a drain goes on as the one that executes. -/
theorem goes_runNext (x : LoopThread) : x.Goes (x.act .runNext) := by
  simp only [act]
  split
  · next todo cb rest _ hexecuting hready =>
    by_cases hstop : cb = .stop
    · refine .of_not fun hx => hx.ready ?_
      rw [hready, hstop]
      exact List.mem_cons_self
    · have hrest : .stop ∉ x.ready → Callback.stop ∉ rest := fun hnot hmem =>
        hnot (hready ▸ List.mem_cons_of_mem _ hmem)
      cases cb with
      | stop => exact absurd rfl hstop
      | drainPending =>
        exact ⟨⟨fun hx => ⟨hx.phase, hx.stopping, hrest hx.ready⟩,
          fun hx => ⟨hx.phase, hx.stopping, hrest hx.ready⟩⟩, fun _ _ => .inr nofun⟩
      | closePool | other =>
        refine ⟨⟨fun hx => ⟨hx.phase, hx.stopping, hrest hx.ready⟩,
          fun hx => ⟨hx.phase, hx.stopping, hrest hx.ready⟩⟩, fun _ hdraining => .inl ?_⟩
        rcases hdraining with hmem | hne
        · rw [hready] at hmem
          exact (List.mem_cons.1 hmem).resolve_left nofun
        · exact absurd hexecuting hne
  · exact .refl x

/-- **Whatever a loop does by itself, it goes on running until it is asked to stop**, and a
drain is not lost unless a call raises. -/
theorem goes_act (x : LoopThread) {a : LoopAct} (ha : a ≠ .raised) : x.Goes (x.act a) := by
  cases a with
  | raised => exact absurd rfl ha
  | runNext => exact x.goes_runNext
  | boot =>
    simp only [act]
    split
    · next h =>
      have hnot : ¬ x.Live := fun hx => nomatch h.symm.trans hx.phase
      exact ⟨⟨fun hx => ⟨.inr rfl, hx.stopping, hx.ready⟩, fun hx => absurd hx hnot⟩,
        fun hx => absurd hx hnot⟩
    · exact .refl x
  | turn =>
    simp only [act]
    split
    · exact x.goes_turn _ id
    · exact .refl x
  | worked =>
    simp only [act]
    split
    · exact x.goes_turn _ fun _ => nofun
    · exact .refl x
  | callSoon =>
    simp only [act]
    split
    · exact x.goes_push .other nofun
    · exact .refl x
  | leave =>
    simp only [act]
    split
    · next h => exact .of_not fun hx => Bool.false_ne_true (hx.stopping.symm.trans h.2.2)
    · exact .refl x
  | close =>
    simp only [act]
    split
    · next h => exact .of_not fun hx => by simpa [h.2] using hx.phase
    · exact .refl x
  | exit =>
    simp only [act]
    split
    · next h => exact .of_not fun hx => by simpa [h] using hx.phase
    · exact .refl x

theorem stays_raised (x : LoopThread) : x.Stays (x.act .raised) := by
  simp only [act]
  split
  · exact x.stays_turn _ _
  · exact (Goes.refl x).toStays

end LoopThread

/-! ## What every calm step keeps -/

namespace Bridge

/-- Loop `l` has a drain, or gets one. -/
def Coming (s : Bridge) (l : ℕ) : Prop := s.Woken l ∨ s.Waking l

/-- What a thread in `start` or `stop` relies on. -/
def Supports (s : Bridge) : Pc → Prop
  | .starting => s.loop = none
  | .startWait l => s.loop = none ∧ s.thread = some l ∧ (s.loops l).Unstopped
  | .stopping l _ => s.loop = some l
  | .stopLocked l _ => (s.loops l).Live
  | .stopClosing l _ => (s.loops l).Live
  | .stopDropped => s.loop = none
  | _ => True

structure Sound (s : Bridge) : Prop where
  /-- What waits has been announced. -/
  waiting : s.Waiting → s.drainScheduled = true
  /-- What has been announced is on its way to the current loop, which nobody stops. -/
  coming : s.drainScheduled = true → s.Quiet ∧ ∃ l, s.loop = some l ∧ s.Coming l
  live : ∀ l, s.loop = some l → s.Quiet → (s.loops l).Live ∧ s.thread = some l
  alone : ∀ t t', (s.pc t).Controls → (s.pc t').Controls → t = t'
  supports : ∀ t, s.Supports (s.pc t)

theorem sound_init : init.Sound where
  waiting h := h.elim (absurd rfl) (absurd rfl)
  coming := nofun
  live := nofun
  alone _ _ := nofun
  supports _ := trivial

variable {s : Bridge}

theorem loops_setLoop (s : Bridge) (l k : ℕ) (x : LoopThread) :
    (s.setLoop l x).loops k = if k = l then x else s.loops k := Function.update_apply _ _ _ _

theorem pc_go (s : Bridge) (t t' : ℕ) (p : Pc) :
    (s.go t p).pc t' = if t' = t then p else s.pc t' := Function.update_apply _ _ _ _

/-- A thread outside of `start` and `stop` relies on nothing. -/
theorem supports_of_not_controls (s : Bridge) {p : Pc} (h : ¬ p.Controls) : s.Supports p := by
  cases p with
  | starting | startWait | stopping | stopLocked | stopClosing | stopJoin | stopJoined
  | stopDropped => exact absurd trivial h
  | out | scheduling | waking | wakingOn => trivial

theorem controls_of_pastLock {p : Pc} (h : p.PastLock) : p.Controls := by
  cases p with
  | stopLocked | stopClosing | stopJoin | stopJoined | stopDropped => trivial
  | _ => exact absurd h id

/-- A loop goes on; the drain of the current one is not lost. -/
theorem Sound.setLoop (h : s.Sound) {l : ℕ} {x : LoopThread} (hstays : (s.loops l).Stays x)
    (hdraining : s.drainScheduled = true → s.loop = some l → (s.loops l).Live →
      (s.loops l).Draining → x.Draining) : (s.setLoop l x).Sound := by
  have hall : ∀ k, (s.loops k).Stays ((s.setLoop l x).loops k) := by
    intro k
    rw [loops_setLoop]
    split
    · next hk => exact hk ▸ hstays
    · exact (LoopThread.Goes.refl _).toStays
  refine ⟨h.waiting, ?coming, ?live, h.alone, ?supports⟩
  case coming =>
    intro hscheduled
    obtain ⟨hquiet, k, hk, hcoming⟩ := h.coming hscheduled
    refine ⟨hquiet, k, hk, hcoming.imp_left fun hwoken => ?_⟩
    change ((s.setLoop l x).loops k).Draining
    rw [loops_setLoop]
    split
    · next heq =>
      subst heq
      exact hdraining hscheduled hk (h.live k hk hquiet).1 hwoken
    · exact hwoken
  case live =>
    intro k hk hquiet
    obtain ⟨hlive, hthread⟩ := h.live k hk hquiet
    exact ⟨(hall k).live hlive, hthread⟩
  case supports =>
    intro t
    have hsupports := h.supports t
    change (s.setLoop l x).Supports (s.pc t)
    revert hsupports
    cases s.pc t with
    | startWait k => exact fun ⟨hloop, hthread, hk⟩ => ⟨hloop, hthread, (hall k).unstopped hk⟩
    | stopLocked k => exact (hall k).live
    | stopClosing k => exact (hall k).live
    | _ => exact id

theorem Sound.goes (h : s.Sound) {l : ℕ} {x : LoopThread} (hgoes : (s.loops l).Goes x) :
    (s.setLoop l x).Sound := h.setLoop hgoes.toStays fun _ _ => hgoes.draining

/-! ### One thread -/

/-- Nobody else is in `start` or `stop`. -/
theorem Sound.others (h : s.Sound) {t : ℕ} (ht : (s.pc t).Controls) :
    ∀ t' ≠ t, ¬ (s.pc t').Controls := fun t' hne ht' => hne (h.alone t' t ht' ht)

/-- What holds of the new place of `t` and of the old places of the others. -/
theorem forall_pc_go {P : ℕ → Pc → Prop} {t : ℕ} {p : Pc} (hp : P t p)
    (hothers : ∀ t' ≠ t, P t' (s.pc t')) : ∀ t', P t' ((s.go t p).pc t') := by
  intro t'
  rw [pc_go]
  split
  · next heq => exact heq ▸ hp
  · next hne => exact hothers t' hne

theorem alone_go {t : ℕ} {p : Pc}
    (h : ∀ t₁ t₂, (s.pc t₁).Controls → (s.pc t₂).Controls → t₁ = t₂)
    (hp : p.Controls → ∀ t' ≠ t, ¬ (s.pc t').Controls) :
    ∀ t₁ t₂, ((s.go t p).pc t₁).Controls → ((s.go t p).pc t₂).Controls → t₁ = t₂ := by
  intro t₁ t₂
  rw [pc_go, pc_go]
  split
  · next h₁ =>
    split
    · next h₂ => exact fun _ _ => h₁.trans h₂.symm
    · next h₂ => exact fun hc₁ hc₂ => absurd hc₂ (hp hc₁ t₂ h₂)
  · next h₁ =>
    split
    · next h₂ => exact fun hc₁ hc₂ => absurd hc₁ (hp hc₂ t₁ h₁)
    · exact h t₁ t₂

theorem quiet_go_iff {t : ℕ} {p : Pc} (hlock : p.PastLock ↔ (s.pc t).PastLock) :
    (s.go t p).Quiet ↔ s.Quiet := by
  refine forall_congr' fun t' => not_congr ?_
  rw [pc_go]
  split
  · next heq => exact heq ▸ hlock
  · exact Iff.rfl

/-- A thread goes on, and nothing else changes. -/
theorem Sound.move (h : s.Sound) {t : ℕ} {p : Pc}
    (hcontrols : p.Controls → ∀ t' ≠ t, ¬ (s.pc t').Controls)
    (hlock : p.PastLock ↔ (s.pc t).PastLock)
    (hwaking : s.drainScheduled = true → ∀ l, s.loop = some l →
      s.pc t = .waking ∨ s.pc t = .wakingOn l → s.Woken l ∨ p = .waking ∨ p = .wakingOn l)
    (hsupports : s.Supports p) : (s.go t p).Sound := by
  have hquiet : (s.go t p).Quiet ↔ s.Quiet := quiet_go_iff hlock
  refine ⟨h.waiting, ?coming, fun l hl hq => h.live l hl (hquiet.1 hq), alone_go h.alone hcontrols,
    forall_pc_go hsupports fun t' _ => h.supports t'⟩
  intro hscheduled
  obtain ⟨hq, l, hl, hcoming⟩ := h.coming hscheduled
  refine ⟨hquiet.2 hq, l, hl, ?_⟩
  rcases hcoming with hwoken | ⟨t', ht'⟩
  · exact .inl hwoken
  · by_cases heq : t' = t
    · subst heq
      refine (hwaking hscheduled l hl ht').imp_right fun hp => ⟨t', ?_⟩
      rwa [pc_go, if_pos rfl]
    · refine .inr ⟨t', ?_⟩
      rwa [pc_go, if_neg heq]

/-- While a `stop` is behind its locked section nothing is announced. -/
theorem Sound.unscheduled (h : s.Sound) {t : ℕ} (ht : (s.pc t).PastLock) :
    s.drainScheduled = false := by
  rw [← Bool.not_eq_true]
  intro hscheduled
  exact (h.coming hscheduled).1 t ht

/-- A step of a `stop` behind its locked section. -/
theorem Sound.shutDown (h : s.Sound) {t : ℕ} {p : Pc} {s' : Bridge} (ht : (s.pc t).PastLock)
    (hp : p.PastLock) (hpc : s'.pc = (s.go t p).pc)
    (hscheduled : s'.drainScheduled = s.drainScheduled) (hwaiting : s'.Waiting → s.Waiting)
    (hsupports : s'.Supports p) : s'.Sound := by
  have hothers := h.others (controls_of_pastLock ht)
  have hself : (s'.pc t).PastLock := by
    rw [hpc, pc_go, if_pos rfl]
    exact hp
  have hoff := hscheduled.trans (h.unscheduled ht)
  refine ⟨?_, ?_, ?_, ?_, ?_⟩
  · intro hwait
    exact hscheduled.trans (h.waiting (hwaiting hwait))
  · intro hon
    exact absurd (hoff.symm.trans hon) Bool.false_ne_true
  · intro l _ hquiet
    exact absurd hself (hquiet t)
  · rw [hpc]
    exact alone_go h.alone fun _ => hothers
  · rw [hpc]
    exact forall_pc_go (P := fun _ p => s'.Supports p) hsupports fun t' hne =>
      s'.supports_of_not_controls (hothers t' hne)

/-- More work that has been announced. -/
theorem Sound.more (h : s.Sound) (hscheduled : s.drainScheduled = true) {t : ℕ} {work : Work}
    (ht : s.pc t = .scheduling work) (pending pendingCalls : List ℕ) :
    ({ s with pending := pending, pendingCalls := pendingCalls }.go t .out).Sound := by
  have hmore : ({ s with pending := pending, pendingCalls := pendingCalls } : Bridge).Sound :=
    ⟨fun _ => hscheduled, h.coming, h.live, h.alone, h.supports⟩
  refine hmore.move nofun (by change _ ↔ (s.pc t).PastLock; rw [ht]; rfl) ?_ trivial
  intro _ l _ hself
  change s.pc t = _ ∨ s.pc t = _ at hself
  rw [ht] at hself
  exact hself.elim nofun nofun

/-- Work that is announced now. -/
theorem Sound.announce (h : s.Sound) (hloop : s.loop ≠ none) (hquiet : s.Quiet) {t : ℕ}
    {work : Work} (ht : s.pc t = .scheduling work) (pending pendingCalls : List ℕ) :
    ({ s with pending := pending, pendingCalls := pendingCalls, drainScheduled := true }.go t
      .waking).Sound := by
  obtain ⟨l, hl⟩ := Option.ne_none_iff_exists'.1 hloop
  have hq : (s.go t .waking).Quiet ↔ s.Quiet := quiet_go_iff (by rw [ht]; rfl)
  refine ⟨fun _ => rfl, fun _ => ⟨hq.2 hquiet, l, hl, .inr ⟨t, .inl ?_⟩⟩,
    fun k hk _ => h.live k hk hquiet, alone_go h.alone nofun,
    forall_pc_go trivial fun t' _ => h.supports t'⟩
  exact (pc_go s t t .waking).trans (if_pos rfl)

/-- **The locked section of a schedule call**, on a bridge that nobody is stopping. -/
theorem Sound.enqueue (h : s.Sound) {t : ℕ} {work : Work} (ht : s.pc t = .scheduling work)
    (hloop : s.loop ≠ none) (hquiet : s.Quiet) : (s.enqueue t work).Sound := by
  obtain ⟨pending, pendingCalls, hput⟩ : ∃ pending pendingCalls,
      s.put work = { s with pending := pending, pendingCalls := pendingCalls } := by
    cases work <;> exact ⟨_, _, rfl⟩
  rw [Bridge.enqueue, hput]
  dsimp only
  split
  · next hscheduled => exact h.more hscheduled ht _ _
  · exact h.announce hloop hquiet ht _ _

/-- `call_soon_threadsafe` of the drain, or the error of a closed loop. -/
theorem Sound.wake (h : s.Sound) {t l : ℕ} (ht : s.pc t = .wakingOn l) :
    (((s.callSoonThreadsafe l .drainPending).getD s).go t .out).Sound := by
  have hlock : Pc.out.PastLock ↔ (s.pc t).PastLock := by rw [ht]; rfl
  unfold callSoonThreadsafe
  split
  · next hclosed =>
    -- A call that was late: the loop is not the current one.
    refine h.move nofun hlock ?_ trivial
    intro hscheduled k hk hself
    obtain ⟨hquiet, -⟩ := h.coming hscheduled
    have hlive := (h.live k hk hquiet).1
    rw [ht] at hself
    obtain rfl : l = k := Pc.wakingOn.inj (hself.resolve_left nofun)
    rcases hclosed with hclosed | hclosed <;> cases hclosed.symm.trans hlive.phase
  · have hpush := h.goes (LoopThread.goes_push (s.loops l) .drainPending nofun)
    refine hpush.move nofun hlock ?_ trivial
    intro _ k _ hself
    change s.pc t = _ ∨ s.pc t = _ at hself
    rw [ht] at hself
    obtain rfl : l = k := Pc.wakingOn.inj (hself.resolve_left nofun)
    refine .inl (.inl ?_)
    rw [loops_setLoop, if_pos rfl]
    exact List.mem_append_right _ (List.mem_singleton_self _)

/-- A new bridge thread. -/
theorem Sound.spawn (h : s.Sound) {t : ℕ} (ht : s.pc t = .starting) :
    ({ s.setLoop s.created .fresh with
      created := s.created + 1
      thread := some s.created }.go t (.startWait s.created)).Sound := by
  have hothers := h.others (t := t) (by rw [ht]; trivial)
  have hnone : s.loop = none := by
    have hsupports := h.supports t
    rwa [ht] at hsupports
  refine ⟨h.waiting, ?coming, ?live, alone_go h.alone fun _ => hothers, forall_pc_go ⟨hnone, rfl, ?fresh⟩
    fun t' hne => supports_of_not_controls _ (hothers t' hne)⟩
  case coming =>
    intro hscheduled
    obtain ⟨-, l, hl, -⟩ := h.coming hscheduled
    cases hnone.symm.trans hl
  case live =>
    intro l hl
    cases hnone.symm.trans hl
  case fresh =>
    change ((s.setLoop s.created .fresh).loops s.created).Unstopped
    rw [loops_setLoop, if_pos rfl]
    exact ⟨.inl rfl, rfl, List.not_mem_nil⟩

/-- The loop of a new bridge thread becomes the current one. -/
theorem Sound.install (h : s.Sound) {t l : ℕ} (ht : s.pc t = .startWait l)
    (hbooted : (s.loops l).phase ≠ .booting) : ({ s with loop := some l }.go t .out).Sound := by
  have hothers := h.others (t := t) (by rw [ht]; trivial)
  obtain ⟨hnone, hthread, hloop⟩ : s.Supports (.startWait l) := ht ▸ h.supports t
  refine ⟨h.waiting, ?coming, ?live, alone_go h.alone nofun, forall_pc_go trivial
    fun t' hne => supports_of_not_controls _ (hothers t' hne)⟩
  case coming =>
    intro hscheduled
    obtain ⟨-, k, hk, -⟩ := h.coming hscheduled
    cases hnone.symm.trans hk
  case live =>
    intro k hk _
    obtain rfl : l = k := Option.some.inj hk
    exact ⟨⟨hloop.phase.resolve_left hbooted, hloop.stopping, hloop.ready⟩, hthread⟩

/-- **The locked section of `stop`.** -/
theorem Sound.lock (h : s.Sound) {t l thread : ℕ} (ht : s.pc t = .stopping l thread) :
    ({ s with pending := [], pendingCalls := [], drainScheduled := false }.go t
      (.stopLocked l thread)).Sound := by
  have hothers := h.others (t := t) (by rw [ht]; trivial)
  have hloop : s.Supports (.stopping l thread) := ht ▸ h.supports t
  have hquiet : s.Quiet := by
    intro t' ht'
    by_cases heq : t' = t
    · rw [heq, ht] at ht'
      exact ht'
    · exact hothers t' heq (controls_of_pastLock ht')
  have hself : ((s.go t (.stopLocked l thread)).pc t).PastLock := by
    rw [pc_go, if_pos rfl]
    trivial
  exact ⟨fun hwaiting => hwaiting.elim (absurd rfl) (absurd rfl), nofun,
    fun k _ hq => absurd hself (hq t), alone_go h.alone fun _ => hothers,
    forall_pc_go (h.live l hloop hquiet).1 fun t' hne =>
      supports_of_not_controls _ (hothers t' hne)⟩

/-- The end of `stop`. -/
theorem Sound.dropThread (h : s.Sound) {t : ℕ} (ht : s.pc t = .stopDropped) :
    ({ s with thread := none }.go t .out).Sound := by
  have hothers := h.others (t := t) (by rw [ht]; trivial)
  have hnone : s.Supports .stopDropped := ht ▸ h.supports t
  have hoff := h.unscheduled (t := t) (by rw [ht]; trivial)
  refine ⟨h.waiting, fun hon => ?_, fun l hl => ?_, alone_go h.alone nofun, forall_pc_go trivial
    fun t' hne => supports_of_not_controls _ (hothers t' hne)⟩
  · exact absurd (hoff.symm.trans hon) Bool.false_ne_true
  · cases hnone.symm.trans hl

/-- **The locked section of `_drain_pending`.** -/
theorem Sound.drain (h : s.Sound) (l : ℕ) : (s.drain l).Sound := by
  unfold Bridge.drain
  split
  · split
    · next hempty =>
      have hover : ({ s with drainScheduled := false } : Bridge).Sound :=
        ⟨fun hwaiting => absurd hempty fun ⟨hpending, hcalls⟩ =>
            hwaiting.elim (absurd hpending) (absurd hcalls),
          nofun, h.live, h.alone, h.supports⟩
      exact hover.setLoop ((s.loops l).stays_turn _ _) nofun
    · have htaken : ({ s with pending := [], pendingCalls := [] } : Bridge).Sound :=
        ⟨fun hwaiting => hwaiting.elim (absurd rfl) (absurd rfl), h.coming, h.live, h.alone,
          h.supports⟩
      exact htaken.goes ((s.loops l).goes_turn _ fun _ => nofun)
  · exact h

/-! ### The steps -/

/-- A call of `start` or `stop` begins, and there is no other. -/
theorem Sound.control (h : s.Sound) (hcalm : ∀ t, ¬ (s.pc t).Controls) {t : ℕ} {p : Pc}
    (ht : s.pc t = .out) (hlock : ¬ p.PastLock) (hsupports : s.Supports p) :
    (s.go t p).Sound := by
  refine h.move (fun _ t' _ => hcalm t') (iff_of_false hlock (by rw [ht]; exact id)) ?_ hsupports
  intro _ l _ hself
  rw [ht] at hself
  exact hself.elim nofun nofun

/-- Where nobody is in `start` or `stop`, a bridge that does not run has no loop. -/
theorem Sound.stopped (h : s.Sound) (hcalm : ∀ t, ¬ (s.pc t).Controls) (hrunning : ¬ s.Running) :
    s.loop = none := by
  cases hloop : s.loop with
  | none => rfl
  | some l =>
    obtain ⟨hlive, hthread⟩ := h.live l hloop fun t ht => hcalm t (controls_of_pastLock ht)
    refine absurd ⟨by rw [hloop]; nofun, l, hthread, ?_⟩ hrunning
    rw [hlive.phase]
    nofun

/-- A step of a `stop` that leaves everything to its caller. -/
theorem Sound.leave (h : s.Sound) {t : ℕ} {p : Pc} (ht : (s.pc t).PastLock) (hp : p.PastLock)
    (hsupports : s.Supports p) : (s.go t p).Sound := h.shutDown ht hp rfl rfl id hsupports

theorem Sound.timeOut (h : s.Sound) (t : ℕ) : (s.timeOut t).Sound := by
  unfold Bridge.timeOut
  split
  · next l ht =>
    split
    · refine h.move nofun (by rw [ht]; rfl) ?_ trivial
      intro _ k _ hself
      rw [ht] at hself
      exact hself.elim nofun nofun
    · exact h
  · next ht => exact h.leave (by rw [ht]; trivial) trivial trivial
  · exact h

/-- `call_soon_threadsafe` of a `stop`, whose loop is not closed yet. -/
theorem Sound.ask (h : s.Sound) {t l : ℕ} {p : Pc} (cb : Callback) (ht : (s.pc t).PastLock)
    (hp : p.PastLock) (hlive : (s.loops l).Live)
    (hsupports : (s.setLoop l ((s.loops l).push cb)).Supports p) :
    ∃ s', s.callSoonThreadsafe l cb = some s' ∧ (s'.go t p).Sound := by
  have hopen : ¬ ((s.loops l).phase = .closed ∨ (s.loops l).phase = .dead) := by
    rw [hlive.phase]
    exact fun h => h.elim nofun nofun
  exact ⟨_, if_neg hopen, h.shutDown ht hp rfl rfl id hsupports⟩

/-- **What a thread does keeps the bridge sound.** -/
theorem Sound.advance (h : s.Sound) {t : ℕ}
    (hcalm : ∀ work, s.pc t = .scheduling work → s.loop ≠ none ∧ s.Quiet) :
    (s.advance t).Sound := by
  unfold Bridge.advance
  split
  next => exact h
  next work ht => exact h.enqueue ht (hcalm work ht).1 (hcalm work ht).2
  next ht =>
    split
    · next hloop =>
      refine h.move nofun (by rw [ht]; rfl) (fun _ l hl => ?_) trivial
      cases hloop.symm.trans hl
    · next l hloop =>
      refine h.move nofun (by rw [ht]; rfl) (fun _ k hk _ => .inr (.inr ?_)) trivial
      rw [Option.some.inj (hloop.symm.trans hk)]
  next l ht => exact h.wake ht
  next ht => exact h.spawn ht
  next l ht =>
    split
    · exact h
    · next hbooted => exact h.install ht hbooted
  next l thread ht => exact h.lock ht
  next l thread ht =>
    have hlive : s.Supports (.stopLocked l thread) := ht ▸ h.supports t
    have hlater : (s.setLoop l ((s.loops l).push .closePool)).Supports (.stopClosing l thread) := by
      change ((s.setLoop l ((s.loops l).push .closePool)).loops l).Live
      rw [loops_setLoop, if_pos rfl]
      exact (LoopThread.goes_push _ .closePool nofun).live hlive
    obtain ⟨s', hs', hsound⟩ := h.ask .closePool (p := .stopClosing l thread) (by rw [ht]; trivial)
      trivial hlive hlater
    rw [hs']
    exact hsound
  next l thread ht =>
    have hlive : s.Supports (.stopClosing l thread) := ht ▸ h.supports t
    obtain ⟨s', hs', hsound⟩ := h.ask .stop (p := .stopJoin thread) (by rw [ht]; trivial) trivial
      hlive trivial
    rw [hs']
    exact hsound
  next thread ht =>
    split
    · exact h.leave (by rw [ht]; trivial) trivial trivial
    · exact h
  next ht => exact h.shutDown (p := .stopDropped) (by rw [ht]; trivial) trivial rfl rfl id rfl
  next ht => exact h.dropThread ht

/-- **What every calm step keeps.** -/
theorem Sound.step (h : s.Sound) {a : BridgeAct} (hcalm : s.Calm a) : (s.step a).Sound := by
  cases a with
  | schedule t work =>
    simp only [Bridge.step]
    split
    · next hout =>
      refine h.move nofun (by rw [hout.1]; rfl) ?_ trivial
      intro _ l _ hself
      rw [hout.1] at hself
      exact hself.elim nofun nofun
    · exact h
  | start t =>
    simp only [Bridge.step]
    split
    · next hout => exact h.control hcalm hout.1 id (h.stopped hcalm hout.2)
    · exact h
  | stop t =>
    simp only [Bridge.step]
    split
    · next l thread hout hloop _ => exact h.control hcalm hout id hloop
    · exact h
  | advance t => exact h.advance hcalm
  | timeOut t => exact h.timeOut t
  | loop l a =>
    by_cases ha : a = .raised
    · subst ha
      refine h.setLoop (s.loops l).stays_raised fun hscheduled hl => ?_
      exact absurd (hcalm hl) (by simp [hscheduled])
    · exact h.goes ((s.loops l).goes_act ha)
  | drain l => exact h.drain l

/-- **In a calm run, work that waits has its wake-up**: a drain is queued or executing on the
current loop, or the schedule call that announced it is about to queue one there. -/
theorem wakes_are_kept (acts : List BridgeAct) (hcalm : Along step Calm init acts) :
    ((∀ l, ¬ (run acts).Waking l) → (run acts).Kept ∧ (run acts).Honest) ∧
      ((run acts).Waiting → (run acts).drainScheduled = true) ∧
        ((run acts).drainScheduled = true →
          ∃ l, (run acts).loop = some l ∧ ((run acts).Woken l ∨ (run acts).Waking l)) := by
  have hsound : (run acts).Sound := hcalm.foldl sound_init fun _ _ h ha => h.step ha
  have hcoming : (run acts).drainScheduled = true →
      ∃ l, (run acts).loop = some l ∧ ((run acts).Woken l ∨ (run acts).Waking l) :=
    fun hscheduled => (hsound.coming hscheduled).2
  refine ⟨fun hnone => ?_, hsound.waiting, hcoming⟩
  have hhonest : (run acts).Honest := by
    intro hscheduled
    obtain ⟨l, hl, hwoken⟩ := hcoming hscheduled
    exact ⟨l, hl, hwoken.resolve_right (hnone l)⟩
  exact ⟨fun _ hwaiting => hhonest (hsound.waiting hwaiting), hhonest⟩

/-- The bridge is started, and another thread schedules a coroutine. -/
def scheduled : List BridgeAct :=
  [.start 0, .advance 0, .loop 0 .boot, .advance 0, .schedule 1 (.coro 7), .advance 1, .advance 1,
    .advance 1]

theorem wakes_are_kept_scheduled : ∃ l, (run scheduled).loop = some l ∧ (run scheduled).Woken l := by
  have hcalm : Along step Calm init scheduled := by
    refine ⟨?_, nofun, trivial, nofun, trivial, ?_, nofun, nofun, trivial⟩
    · exact fun _ => id
    · refine fun _ _ => ⟨nofun, fun t => ?_⟩
      rcases t with _ | _ | t <;> exact id
  refine ((wakes_are_kept scheduled hcalm).1 fun l => ?_).2 (by decide)
  rintro ⟨_ | _ | t, ht⟩ <;> exact ht.elim nofun nofun

/-- A `stop` begins, and another thread, past its checks, enqueues a coroutine between the locked
section of the `stop` and the end of the loop; then the bridge is started again. -/
def restarted : List BridgeAct :=
  [.start 0, .advance 0, .loop 0 .boot, .advance 0, .schedule 1 (.coro 7), .stop 0, .advance 0,
    .advance 1, .advance 1, .advance 0, .advance 0, .loop 0 .turn, .advance 1, .loop 0 .runNext,
    .loop 0 .runNext, .loop 0 .leave, .loop 0 .close, .loop 0 .exit, .advance 0, .advance 0,
    .advance 0, .start 0, .advance 0, .loop 1 .boot, .advance 0]

/-- Every call has returned, and the coroutine is stranded. -/
theorem not_kept_restarted : ¬ ∀ acts, (∀ t, (run acts).pc t = .out) → (run acts).Kept := by
  intro h
  have hout : ∀ t, (run restarted).pc t = .out := by
    rintro (_ | _ | t) <;> rfl
  obtain ⟨l, hl, hwoken⟩ := h restarted hout (by decide) (.inl (by decide))
  obtain rfl : 1 = l := Option.some.inj hl
  exact hwoken.elim nofun fun hne => hne rfl

end Bridge

end Adapters
