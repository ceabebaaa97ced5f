import MqttBench.Lib.Traces

/-!
# The worker pool of the asyncio bridge

`_dispatch`, `_worker` and `_close_pool` of `adapters/async_bridge.py`.  A coroutine is known
by the number of its dispatch; a worker that awaits one may be suspended in it any number of
times before the coroutine ends.

* `Pool.step` — the program: one dispatch, one turn of a worker, one end of a coroutine.
* `Kills` — the events that end a worker of an open pool.
* `Kept` — what every step keeps; `Kept.step` — it does.
* `strands_nothing_iff` — **no coroutine is lost, and the backlog is worked on by the whole
  pool unless a worker was killed.**
-/

namespace Adapters

open Traces

/-! ## The program -/

/-- How a coroutine ends; `raised` stands for an `Exception`, and nothing else that is raised is
modelled. -/
inductive CoroEnd
  | returned
  | raised
  | cancelled
  deriving DecidableEq

/-- Where a worker's task stands: before its first turn, in `await coro`, in `await waiter`
with the waiter pending or resolved, or at its end. -/
inductive Worker
  | created (first : ℕ)
  | running (coro : ℕ)
  | idle
  | handed (coro : ℕ)
  | ended
  deriving DecidableEq

/-- The loop-thread state.  `tasks` are the tasks of the workers in the order of their
creation, and a waiter is known by its worker.  `dispatched` and `started` are a record: how
many coroutines there were, and those that were awaited, in order. -/
structure Pool where
  maxWorkers : ℕ
  tasks : List Worker
  /-- `_workers`. -/
  workers : List ℕ
  idleWaiters : List ℕ
  ready : List ℕ
  poolClosing : Bool
  dispatched : ℕ
  started : List ℕ

namespace Pool

/-- `AsyncioBridge(max_workers)` after `start()`. -/
def init (maxWorkers : ℕ) : Pool := ⟨max 1 maxWorkers, [], [], [], [], false, 0, []⟩

/-- `waiter.done()`. -/
def done (s : Pool) (w : ℕ) : Bool := s.tasks[w]? ≠ some .idle

def setTask (s : Pool) (w : ℕ) (t : Worker) : Pool := { s with tasks := s.tasks.set w t }

/-- The `while self._idle_waiters` of `_dispatch`: the waiter that takes the coroutine, and
what is left of the queue. -/
def popWaiter (s : Pool) : List ℕ → Option ℕ × List ℕ
  | [] => (none, [])
  | w :: waiters => if s.done w then s.popWaiter waiters else (some w, waiters)

/-- `_dispatch(coro)`. -/
def dispatch (s : Pool) : Pool :=
  let coro := s.dispatched
  let s := { s with dispatched := s.dispatched + 1 }
  match s.popWaiter s.idleWaiters with
  | (some w, waiters) => { s with idleWaiters := waiters }.setTask w (.handed coro)
  | (none, waiters) =>
    let s := { s with idleWaiters := waiters }
    if s.workers.length < s.maxWorkers then
      { s with
        tasks := s.tasks ++ [.created coro]
        workers := s.workers ++ [s.tasks.length] }
    else { s with ready := s.ready ++ [coro] }

/-- `await coro` begins. -/
def await (s : Pool) (w coro : ℕ) : Pool :=
  { s.setTask w (.running coro) with started := s.started ++ [coro] }

/-- A turn of worker `w`, which takes what it was created with or handed. -/
def turn (s : Pool) (w : ℕ) : Pool :=
  match s.tasks[w]? with
  | some (.created coro) => s.await w coro
  | some (.handed coro) => s.await w coro
  | _ => s

/-- The rest of the loop of `_worker`, after a coroutine. -/
def next (s : Pool) (w : ℕ) : Pool :=
  if s.poolClosing then s.setTask w .ended
  else
    match s.ready with
    | coro :: ready => { s with ready := ready }.await w coro
    | [] => { s.setTask w .idle with idleWaiters := s.idleWaiters ++ [w] }

/-- The coroutine that worker `w` awaits ends. -/
def finish (s : Pool) (w : ℕ) (e : CoroEnd) : Pool :=
  match s.tasks[w]? with
  | some (.running _) => if e = .cancelled then s.setTask w .ended else s.next w
  | _ => s

/-- Worker `w` is cancelled while it is idle: its waiter stays behind. -/
def cancelIdle (s : Pool) (w : ℕ) : Pool :=
  if s.tasks[w]? = some .idle then s.setTask w .ended else s

/-- A task that is cancelled ends, but for a coroutine that it awaits. -/
def cancel : Worker → Worker
  | .running coro => .running coro
  | _ => .ended

/-- `_close_pool()`. -/
def closePool (s : Pool) : Pool :=
  { s with
    poolClosing := true
    tasks := s.tasks.map cancel
    idleWaiters := []
    ready := []
    workers := [] }

end Pool

/-- An event on the loop. -/
inductive PoolEvent
  | dispatch
  | turn (w : ℕ)
  | finish (w : ℕ) (e : CoroEnd)
  | cancelIdle (w : ℕ)
  | closePool
  deriving DecidableEq

namespace Pool

def step (s : Pool) : PoolEvent → Pool
  | .dispatch => s.dispatch
  | .turn w => s.turn w
  | .finish w e => s.finish w e
  | .cancelIdle w => s.cancelIdle w
  | .closePool => s.closePool

/-- A run from a started bridge. -/
def run (maxWorkers : ℕ) (events : List PoolEvent) : Pool := events.foldl step (init maxWorkers)

end Pool

/-! ## What is claimed -/

/-- What a worker was given and has not begun. -/
def Worker.handOff : Worker → List ℕ
  | .created coro => [coro]
  | .handed coro => [coro]
  | _ => []

theorem Worker.length_handOff_le (t : Worker) : t.handOff.length ≤ 1 := by
  cases t <;> simp [Worker.handOff]

/-- A worker with a coroutine: it awaits it, or will at its next turn. -/
def Worker.busy : Worker → Bool
  | .created _ => true
  | .running _ => true
  | .handed _ => true
  | _ => false

namespace Pool

/-- The coroutines on their way to one worker each. -/
def handOffs (s : Pool) : List ℕ := s.tasks.flatMap Worker.handOff

/-- Every coroutine dispatched is in one place: begun, in the backlog, or handed to a
worker. -/
def Accounted (s : Pool) : Prop :=
  (s.started ++ s.ready ++ s.handOffs).Perm (List.range s.dispatched)

/-- The whole pool is there and at work. -/
def AllBusy (s : Pool) : Prop :=
  s.workers.length = s.maxWorkers ∧ ∀ w ∈ s.workers, ∃ t, s.tasks[w]? = some t ∧ t.busy = true

/-- The event ends worker `w`, which awaits a coroutine or waits for one. -/
inductive Kills (s : Pool) : PoolEvent → ℕ → Prop
  | cancelled {w coro : ℕ} :
      s.tasks[w]? = some (.running coro) → Kills s (.finish w .cancelled) w
  | idle {w : ℕ} : s.tasks[w]? = some .idle → Kills s (.cancelIdle w) w

/-- The pool has not been closed. -/
def Open (events : List PoolEvent) : Prop := .closePool ∉ events

instance (events : List PoolEvent) : Decidable (Open events) :=
  inferInstanceAs (Decidable (.closePool ∉ events))

/-! ## Accounting -/

theorem accounted_iff {s : Pool} : s.Accounted ↔ ∀ coro, s.started.count coro +
    s.ready.count coro + s.handOffs.count coro = (List.range s.dispatched).count coro := by
  rw [Accounted, List.perm_iff_count]
  simp only [List.count_append]

/-- What changes hands when one task goes from `t` to `t'`. -/
theorem count_flatMap_set {tasks : List Worker} {w : ℕ} {t : Worker} (h : tasks[w]? = some t)
    (t' : Worker) (coro : ℕ) :
    ((tasks.set w t').flatMap Worker.handOff).count coro + t.handOff.count coro =
      (tasks.flatMap Worker.handOff).count coro + t'.handOff.count coro := by
  induction tasks generalizing w with
  | nil => cases h
  | cons u tasks ih =>
    cases w with
    | zero =>
      obtain rfl : u = t := Option.some.inj h
      simp only [List.set_cons_zero, List.flatMap_cons, List.count_append]
      omega
    | succ w =>
      have hrest := ih (w := w) h
      simp only [List.set_cons_succ, List.flatMap_cons, List.count_append]
      omega

/-- What every step of an open pool keeps. -/
structure Kept (s : Pool) : Prop where
  isOpen : s.poolClosing = false
  workers : s.workers = List.range s.tasks.length
  le : s.tasks.length ≤ s.maxWorkers
  /-- Every idle worker has its waiter in the queue. -/
  waiting : ∀ w : ℕ, s.tasks[w]? = some .idle → w ∈ s.idleWaiters
  /-- There is a backlog only while the pool is full and nobody is idle. -/
  full : s.ready ≠ [] → s.tasks.length = s.maxWorkers ∧ ∀ w : ℕ, s.tasks[w]? ≠ some Worker.idle
  accounted : s.Accounted

theorem kept_init (maxWorkers : ℕ) : (init maxWorkers).Kept where
  isOpen := rfl
  workers := rfl
  le := Nat.zero_le _
  waiting := by
    intro w h
    cases h
  full := fun h => absurd rfl h
  accounted := List.Perm.refl _

variable {s : Pool}

/-- The waiter that takes a coroutine is that of an idle worker, and the waiters before it
are done; where there is none, all are. -/
theorem popWaiter_spec (s : Pool) (waiters : List ℕ) :
    match s.popWaiter waiters with
    | (some w, rest) => s.tasks[w]? = some .idle ∧
        ∀ v ∈ waiters, s.tasks[v]? = some .idle → v = w ∨ v ∈ rest
    | (none, rest) => rest = [] ∧ ∀ v ∈ waiters, s.tasks[v]? ≠ some .idle := by
  induction waiters with
  | nil => exact ⟨rfl, fun v hv => absurd hv List.not_mem_nil⟩
  | cons w waiters ih =>
    unfold popWaiter
    by_cases hdone : s.done w = true
    · have hw : s.tasks[w]? ≠ some .idle := by simpa [done] using hdone
      rw [if_pos hdone]
      revert ih
      rcases s.popWaiter waiters with ⟨none | u, rest⟩
      · rintro ⟨hrest, hall⟩
        exact ⟨hrest, List.forall_mem_cons.2 ⟨hw, hall⟩⟩
      · rintro ⟨hu, hall⟩
        exact ⟨hu, List.forall_mem_cons.2 ⟨fun hidle => absurd hidle hw, hall⟩⟩
    · have hw : s.tasks[w]? = some .idle := by simpa [done] using hdone
      rw [if_neg hdone]
      exact ⟨hw, List.forall_mem_cons.2 ⟨fun _ => .inl rfl, fun v hv _ => .inr hv⟩⟩

/-- Who is idle when a task was set: that task if it was set so, and whoever was before. -/
theorem idle_of_setTask {w v : ℕ} {t : Worker} (h : (s.setTask w t).tasks[v]? = some .idle) :
    v = w ∧ t = .idle ∨ v ≠ w ∧ s.tasks[v]? = some .idle := by
  change (s.tasks.set w t)[v]? = _ at h
  rw [List.getElem?_set] at h
  by_cases hv : w = v
  · rw [if_pos hv] at h
    split at h
    · exact .inl ⟨hv.symm, Option.some.inj h⟩
    · cases h
  · rw [if_neg hv] at h
    exact .inr ⟨Ne.symm hv, h⟩

theorem count_handOffs_setTask {w : ℕ} {t : Worker} (h : s.tasks[w]? = some t) (t' : Worker)
    (coro : ℕ) : (s.setTask w t').handOffs.count coro + t.handOff.count coro =
      s.handOffs.count coro + t'.handOff.count coro :=
  count_flatMap_set h t' coro

/-- One task changes: what has to be shown of the rest.  A coroutine that comes or goes does
so on both sides of the account. -/
theorem Kept.update (h : s.Kept) {s' : Pool} {w : ℕ} {t : Worker} (t' : Worker)
    (hw : s.tasks[w]? = some t) (htasks : s'.tasks = (s.setTask w t').tasks)
    (hopen : s'.poolClosing = s.poolClosing)
    (hworkers : s'.workers = s.workers) (hmax : s'.maxWorkers = s.maxWorkers)
    (hidle : t' = .idle → w ∈ s'.idleWaiters)
    (hothers : ∀ v ≠ w, s.tasks[v]? = some .idle → v ∈ s.idleWaiters → v ∈ s'.idleWaiters)
    (hready : s'.ready ≠ [] → s.ready ≠ [] ∧ t' ≠ .idle)
    (haccount : ∀ coro, s'.started.count coro + s'.ready.count coro + t'.handOff.count coro +
      (List.range s.dispatched).count coro = s.started.count coro + s.ready.count coro +
        t.handOff.count coro + (List.range s'.dispatched).count coro) : s'.Kept where
  isOpen := hopen.trans h.isOpen
  workers := by
    rw [hworkers, h.workers, htasks]
    exact congrArg _ List.length_set.symm
  le := by
    rw [htasks, hmax]
    exact List.length_set.trans_le h.le
  waiting := by
    intro v hv
    rw [htasks] at hv
    rcases idle_of_setTask hv with ⟨rfl, hself⟩ | ⟨hne, hv⟩
    · exact hidle hself
    · exact hothers v hne hv (h.waiting v hv)
  full := by
    intro hne
    obtain ⟨hbefore, hself⟩ := hready hne
    obtain ⟨hlen, hnone⟩ := h.full hbefore
    rw [htasks, hmax]
    refine ⟨List.length_set.trans hlen, ?_⟩
    intro v hv
    rcases idle_of_setTask hv with ⟨-, ht⟩ | ⟨-, hv⟩
    · exact hself ht
    · exact hnone v hv
  accounted := by
    rw [accounted_iff]
    intro coro
    have hset : s'.handOffs = (s.setTask w t').handOffs := congrArg (List.flatMap _) htasks
    have hcount := count_handOffs_setTask hw t' coro
    have hall := accounted_iff.1 h.accounted coro
    have hnow := haccount coro
    rw [hset]
    omega

/-- A coroutine is handed to an idle worker. -/
theorem Kept.handTo (h : s.Kept) {w : ℕ} {rest : List ℕ} (hw : s.tasks[w]? = some .idle)
    (hrest : ∀ v ∈ s.idleWaiters, s.tasks[v]? = some .idle → v = w ∨ v ∈ rest) :
    ({ s with dispatched := s.dispatched + 1, idleWaiters := rest }.setTask w
      (.handed s.dispatched)).Kept := by
  refine h.update (.handed s.dispatched) hw rfl rfl rfl rfl nofun ?others ?ready ?account
  case others =>
    intro v hne hv hmem
    exact (hrest v hmem hv).resolve_left hne
  case ready =>
    intro hready
    exact absurd hw ((h.full hready).2 w)
  case account =>
    intro coro
    change _ + _ + [s.dispatched].count coro + _ = _ + _ + 0 +
      (List.range (s.dispatched + 1)).count coro
    rw [List.range_succ, List.count_append]
    change s.started.count coro + s.ready.count coro + _ + _ = _
    omega

/-- A new worker gets the coroutine. -/
theorem Kept.create (h : s.Kept) (hlt : s.tasks.length < s.maxWorkers) {rest : List ℕ}
    (hnone : ∀ w : ℕ, s.tasks[w]? ≠ some Worker.idle) :
    { s with
      dispatched := s.dispatched + 1
      idleWaiters := rest
      tasks := s.tasks ++ [.created s.dispatched]
      workers := s.workers ++ [s.tasks.length] : Pool }.Kept where
  isOpen := h.isOpen
  workers := by
    simp only [List.length_append, List.length_singleton]
    rw [h.workers, List.range_succ]
  le := by
    simp only [List.length_append, List.length_singleton]
    exact hlt
  waiting := by
    intro v hv
    simp only at hv
    rw [List.getElem?_append] at hv
    split at hv
    · exact absurd hv (hnone v)
    · rw [List.getElem?_singleton] at hv
      split at hv <;> cases hv
  full := by
    intro hready
    have := (h.full hready).1
    omega
  accounted := by
    rw [accounted_iff]
    intro coro
    have hall := accounted_iff.1 h.accounted coro
    simp only [handOffs, List.flatMap_append, List.count_append, List.range_succ] at hall ⊢
    rw [List.flatMap_singleton, Worker.handOff]
    omega

/-- The coroutine joins the backlog. -/
theorem Kept.defer (h : s.Kept) (hfull : s.tasks.length = s.maxWorkers) {rest : List ℕ}
    (hnone : ∀ w : ℕ, s.tasks[w]? ≠ some Worker.idle) :
    { s with
      dispatched := s.dispatched + 1
      idleWaiters := rest
      ready := s.ready ++ [s.dispatched] : Pool }.Kept where
  isOpen := h.isOpen
  workers := h.workers
  le := h.le
  waiting := fun v hv => absurd hv (hnone v)
  full := fun _ => ⟨hfull, hnone⟩
  accounted := by
    rw [accounted_iff]
    intro coro
    have hall := accounted_iff.1 h.accounted coro
    simp only [List.count_append, List.range_succ]
    change _ + (_ + _) + s.handOffs.count coro = _
    omega

/-- A dispatch hands the coroutine over, makes a worker for it, or keeps it. -/
theorem Kept.dispatch_cases (h : s.Kept) :
    (∃ w rest, s.tasks[w]? = some .idle ∧
      (∀ v ∈ s.idleWaiters, s.tasks[v]? = some .idle → v = w ∨ v ∈ rest) ∧
      s.dispatch = { s with dispatched := s.dispatched + 1, idleWaiters := rest }.setTask w
        (.handed s.dispatched)) ∨
    (∀ w : ℕ, s.tasks[w]? ≠ some Worker.idle) ∧ ∃ rest,
      (s.tasks.length < s.maxWorkers ∧ s.dispatch =
        { s with
          dispatched := s.dispatched + 1
          idleWaiters := rest
          tasks := s.tasks ++ [.created s.dispatched]
          workers := s.workers ++ [s.tasks.length] }) ∨
      s.tasks.length = s.maxWorkers ∧ s.dispatch =
        { s with
          dispatched := s.dispatched + 1
          idleWaiters := rest
          ready := s.ready ++ [s.dispatched] } := by
  have hpop := ({ s with dispatched := s.dispatched + 1 } : Pool).popWaiter_spec s.idleWaiters
  unfold Pool.dispatch
  simp only
  revert hpop
  rcases ({ s with dispatched := s.dispatched + 1 } : Pool).popWaiter s.idleWaiters with
    ⟨none | w, rest⟩
  · rintro ⟨-, hall⟩
    refine .inr ⟨fun w hw => hall w (h.waiting w hw) hw, rest, ?_⟩
    simp only [h.workers, List.length_range]
    split
    · next hlt => exact .inl ⟨hlt, rfl⟩
    · next hge => exact .inr ⟨le_antisymm h.le (not_lt.1 hge), rfl⟩
  · rintro ⟨hw, hrest⟩
    exact .inl ⟨w, rest, hw, hrest, rfl⟩

theorem Kept.dispatch (h : s.Kept) : s.dispatch.Kept := by
  obtain ⟨w, rest, hw, hrest, heq⟩ | ⟨hnone, rest, ⟨hlt, heq⟩ | ⟨hfull, heq⟩⟩ := h.dispatch_cases
  · exact heq ▸ h.handTo hw hrest
  · exact heq ▸ h.create hlt hnone
  · exact heq ▸ h.defer hfull hnone

/-- A task ends that had nothing to hand off. -/
theorem Kept.ended (h : s.Kept) {w : ℕ} {t : Worker} (hw : s.tasks[w]? = some t)
    (ht : t.handOff = []) : (s.setTask w .ended).Kept := by
  refine h.update .ended hw rfl rfl rfl rfl nofun (fun _ _ _ hmem => hmem)
    (fun hready => ⟨hready, nofun⟩) ?_
  intro coro
  rw [ht]
  rfl

/-- A worker begins a coroutine, which it was given or takes from the backlog. -/
theorem Kept.await (h : s.Kept) {w coro : ℕ} {t : Worker} {ready : List ℕ}
    (hw : s.tasks[w]? = some t) (hgiven : t.handOff ++ s.ready = coro :: ready) :
    ({ s with ready := ready }.await w coro).Kept := by
  refine h.update (.running coro) hw rfl rfl rfl rfl nofun (fun _ _ _ hmem => hmem) ?ready
    ?account
  case ready =>
    intro hne
    refine ⟨?_, nofun⟩
    intro hnil
    have hlen := congrArg List.length hgiven
    have hone := t.length_handOff_le
    rw [hnil, List.append_nil, List.length_cons] at hlen
    have hnone : ready.length = 0 := by omega
    exact hne (List.length_eq_zero_iff.1 hnone)
  case account =>
    intro c
    have hcount := congrArg (List.count c) hgiven
    rw [List.count_append, List.count_cons] at hcount
    change (s.started ++ [coro]).count c + ready.count c + 0 + (List.range s.dispatched).count c =
      _ + _ + _ + (List.range s.dispatched).count c
    rw [List.count_append, List.count_singleton]
    omega

theorem Kept.turn (h : s.Kept) (w : ℕ) : (s.turn w).Kept := by
  unfold Pool.turn
  split
  · next hw => exact h.await hw rfl
  · next hw => exact h.await hw rfl
  · exact h

/-- **The worker goes on** with the backlog, or goes idle. -/
theorem Kept.next (h : s.Kept) {w coro : ℕ} (hw : s.tasks[w]? = some (.running coro)) :
    (s.next w).Kept := by
  unfold Pool.next
  rw [if_neg (by rw [h.isOpen]; exact Bool.false_ne_true)]
  split
  · next c rest hready => exact h.await hw hready
  · next hready =>
    refine h.update .idle hw rfl rfl rfl rfl (fun _ => ?_) (fun _ _ _ hmem => ?_)
      (fun hne => absurd hready hne) (fun _ => rfl)
    · exact List.mem_append_right _ (List.mem_singleton_self w)
    · exact List.mem_append_left _ hmem

theorem Kept.finish (h : s.Kept) (w : ℕ) (e : CoroEnd) : (s.finish w e).Kept := by
  unfold Pool.finish
  split
  · next hw =>
    split
    · exact h.ended hw rfl
    · exact h.next hw
  · exact h

theorem Kept.cancelIdle (h : s.Kept) (w : ℕ) : (s.cancelIdle w).Kept := by
  unfold Pool.cancelIdle
  split
  · next hw => exact h.ended hw rfl
  · exact h

/-- **Every event but the closing keeps an open pool in order.** -/
theorem Kept.step (h : s.Kept) {e : PoolEvent} (he : e ≠ .closePool) : (s.step e).Kept := by
  cases e with
  | dispatch => exact h.dispatch
  | turn w => exact h.turn w
  | finish w e => exact h.finish w e
  | cancelIdle w => exact h.cancelIdle w
  | closePool => exact absurd rfl he

/-! ## Killed workers -/

theorem ended_setTask_iff {w v : ℕ} {t : Worker} (hw : s.tasks[w]? = some t) (ht : t ≠ .ended)
    (t' : Worker) : (s.setTask w t').tasks[v]? = some .ended ↔
      s.tasks[v]? = some .ended ∨ v = w ∧ t' = .ended := by
  change (s.tasks.set w t')[v]? = _ ↔ _
  rw [List.getElem?_set]
  by_cases hv : w = v
  · subst hv
    obtain ⟨hlt, rfl⟩ := List.getElem?_eq_some_iff.1 hw
    simp [hlt, ht]
  · simp [hv, Ne.symm hv]

/-- Setting a task to something else ends no worker. -/
theorem ended_setTask_iff_of_ne {w v : ℕ} {t t' : Worker} (hw : s.tasks[w]? = some t)
    (ht : t ≠ .ended) (ht' : t' ≠ .ended) :
    (s.setTask w t').tasks[v]? = some .ended ↔ s.tasks[v]? = some .ended := by
  rw [ended_setTask_iff hw ht]
  simp [ht']

theorem Kept.ended_dispatch_iff (h : s.Kept) (v : ℕ) :
    s.dispatch.tasks[v]? = some .ended ↔ s.tasks[v]? = some .ended := by
  obtain ⟨w, rest, hw, -, heq⟩ | ⟨-, rest, ⟨-, heq⟩ | ⟨-, heq⟩⟩ := h.dispatch_cases
  · rw [heq]
    exact ended_setTask_iff_of_ne (s := s) hw nofun nofun
  · rw [heq]
    simp only [List.getElem?_append]
    split
    · rfl
    · next hge =>
      rw [List.getElem?_eq_none (not_lt.1 hge), List.getElem?_singleton]
      split <;> simp
  · rw [heq]

theorem ended_turn_iff (s : Pool) (w v : ℕ) :
    (s.turn w).tasks[v]? = some .ended ↔ s.tasks[v]? = some .ended := by
  unfold turn
  split
  · next hw => exact ended_setTask_iff_of_ne hw nofun nofun
  · next hw => exact ended_setTask_iff_of_ne hw nofun nofun
  · rfl

theorem Kept.ended_next_iff (h : s.Kept) {w coro : ℕ} (hw : s.tasks[w]? = some (.running coro))
    (v : ℕ) : (s.next w).tasks[v]? = some .ended ↔ s.tasks[v]? = some .ended := by
  unfold Pool.next
  rw [if_neg (by rw [h.isOpen]; exact Bool.false_ne_true)]
  split
  · exact ended_setTask_iff_of_ne hw nofun nofun
  · exact ended_setTask_iff_of_ne hw nofun nofun

/-- **A worker has ended when it had, or when the event kills it.** -/
theorem Kept.ended_step_iff (h : s.Kept) {e : PoolEvent} (he : e ≠ .closePool) (v : ℕ) :
    (s.step e).tasks[v]? = some .ended ↔ s.tasks[v]? = some .ended ∨ s.Kills e v := by
  cases e with
  | closePool => exact absurd rfl he
  | dispatch => exact (h.ended_dispatch_iff v).trans (or_iff_left nofun).symm
  | turn w => exact (ended_turn_iff s w v).trans (or_iff_left nofun).symm
  | cancelIdle w =>
    change (s.cancelIdle w).tasks[v]? = _ ↔ _
    unfold Pool.cancelIdle
    split
    · next hw =>
      rw [ended_setTask_iff hw nofun]
      refine or_congr_right ⟨?_, ?_⟩
      · rintro ⟨rfl, -⟩
        exact .idle hw
      · rintro ⟨⟩
        exact ⟨rfl, rfl⟩
    · next hw =>
      refine (or_iff_left ?_).symm
      intro hkills
      cases hkills with
      | idle hidle => exact hw hidle
  | finish w e =>
    change (s.finish w e).tasks[v]? = _ ↔ _
    unfold Pool.finish
    split
    · next coro hw =>
      split
      · next hcancelled =>
        subst hcancelled
        rw [ended_setTask_iff hw nofun]
        refine or_congr_right ⟨?_, ?_⟩
        · rintro ⟨rfl, -⟩
          exact .cancelled hw
        · rintro ⟨⟩
          exact ⟨rfl, rfl⟩
      · next hne =>
        refine (h.ended_next_iff hw v).trans (or_iff_left ?_).symm
        rintro ⟨⟩
        exact hne rfl
    · next hnot =>
      refine (or_iff_left ?_).symm
      rintro ⟨hrunning⟩
      exact hnot _ hrunning

/-! ## Runs -/

/-- The event ends no worker. -/
def Spares (s : Pool) (e : PoolEvent) : Prop := ∀ w, ¬ s.Kills e w

theorem Kept.foldl (h : s.Kept) {events : List PoolEvent} (hopen : Open events) :
    (events.foldl Pool.step s).Kept := by
  induction events generalizing s with
  | nil => exact h
  | cons e events ih =>
    obtain ⟨he, hopen⟩ := not_or.1 (mt List.mem_cons.2 hopen)
    exact ih (h.step (Ne.symm he)) hopen

/-- A worker that has ended stays so. -/
theorem Kept.ended_foldl (h : s.Kept) {events : List PoolEvent} (hopen : Open events) {v : ℕ}
    (hv : s.tasks[v]? = some .ended) : (events.foldl Pool.step s).tasks[v]? = some .ended := by
  induction events generalizing s with
  | nil => exact hv
  | cons e events ih =>
    obtain ⟨he, hopen⟩ := not_or.1 (mt List.mem_cons.2 hopen)
    exact ih (h.step (Ne.symm he)) hopen ((h.ended_step_iff (Ne.symm he) v).2 (.inl hv))

/-- **All workers are alive exactly when no event of the run killed one.** -/
theorem Kept.alive_iff (h : s.Kept) {events : List PoolEvent} (hopen : Open events)
    (halive : ∀ v : ℕ, s.tasks[v]? ≠ some Worker.ended) :
    (∀ v : ℕ, (events.foldl Pool.step s).tasks[v]? ≠ some Worker.ended) ↔
      Along Pool.step Spares s events := by
  induction events generalizing s with
  | nil => exact iff_of_true halive trivial
  | cons e events ih =>
    obtain ⟨he, hopen⟩ := not_or.1 (mt List.mem_cons.2 hopen)
    have hstep := h.step (Ne.symm he)
    by_cases hspares : s.Spares e
    · have hnow : ∀ v : ℕ, (s.step e).tasks[v]? ≠ some Worker.ended := by
        intro v hv
        rcases (h.ended_step_iff (Ne.symm he) v).1 hv with hv | hv
        · exact halive v hv
        · exact hspares v hv
      exact (ih hstep hopen hnow).trans (and_iff_right hspares).symm
    · refine iff_of_false ?_ fun halong => hspares halong.1
      obtain ⟨v, hv⟩ := not_forall_not.1 hspares
      intro hall
      exact hall v (hstep.ended_foldl hopen ((h.ended_step_iff (Ne.symm he) v).2 (.inr hv)))

/-- With a backlog, the whole pool is at work exactly when all of it is alive. -/
theorem Kept.allBusy_iff (h : s.Kept) (hready : s.ready ≠ []) :
    s.AllBusy ↔ ∀ v : ℕ, s.tasks[v]? ≠ some Worker.ended := by
  obtain ⟨hlen, hnone⟩ := h.full hready
  constructor
  · rintro ⟨-, hbusy⟩ v hv
    obtain ⟨hlt, -⟩ := List.getElem?_eq_some_iff.1 hv
    obtain ⟨t, ht, htrue⟩ := hbusy v (by rw [h.workers]; exact List.mem_range.2 hlt)
    obtain rfl := Option.some.inj (hv.symm.trans ht)
    cases htrue
  · intro halive
    refine ⟨by rw [h.workers, List.length_range, hlen], ?_⟩
    intro w hw
    rw [h.workers, List.mem_range] at hw
    refine ⟨_, List.getElem?_eq_getElem hw, ?_⟩
    have hidle := hnone w
    have hended := halive w
    rw [List.getElem?_eq_getElem hw] at hidle hended
    cases htask : s.tasks[w] with
    | created | running | handed => rfl
    | idle => exact absurd (congrArg some htask) hidle
    | ended => exact absurd (congrArg some htask) hended

/-- **The pool strands no coroutine, unless a worker was killed.**  In every state of an open
pool each coroutine is in one place; with a backlog the whole pool is at work exactly when no
event of the run killed a worker; and a worker that finishes takes the head of the backlog. -/
theorem strands_nothing_iff (maxWorkers : ℕ) (events : List PoolEvent) (hopen : Open events) :
    (run maxWorkers events).Accounted ∧
      ((run maxWorkers events).ready ≠ [] →
        ((run maxWorkers events).AllBusy ↔ Along Pool.step Spares (init maxWorkers) events)) ∧
      ∀ w coro c rest, (run maxWorkers events).tasks[w]? = some (.running coro) →
        (run maxWorkers events).ready = c :: rest → ∀ e ≠ CoroEnd.cancelled,
          let s := (run maxWorkers events).step (.finish w e)
          s.ready = rest ∧ s.started = (run maxWorkers events).started ++ [c] ∧
            s.tasks[w]? = some (.running c) := by
  have hkept : (run maxWorkers events).Kept := (kept_init maxWorkers).foldl hopen
  refine ⟨hkept.accounted, ?_, ?_⟩
  · intro hready
    exact (hkept.allBusy_iff hready).trans ((kept_init maxWorkers).alive_iff hopen nofun)
  · intro w coro c rest hw hready e he
    obtain ⟨hlt, -⟩ := List.getElem?_eq_some_iff.1 hw
    have hstep : (run maxWorkers events).step (.finish w e) =
        { run maxWorkers events with ready := rest }.await w c := by
      change (run maxWorkers events).finish w e = _
      simp only [finish, hw, if_neg he, Pool.next, hkept.isOpen, Bool.false_eq_true, if_false,
        hready]
    rw [hstep]
    exact ⟨rfl, rfl, List.getElem?_set_self hlt⟩

/-- One worker runs the first coroutine while the second waits. -/
theorem strands_nothing_waiting : (run 1 [.dispatch, .turn 0, .dispatch]).AllBusy :=
  ((strands_nothing_iff 1 [.dispatch, .turn 0, .dispatch] (by decide)).2.1 (by decide)).2
    ⟨nofun, nofun, nofun, trivial⟩

/-- The first coroutine raises `CancelledError`: the only worker is gone and still counts. -/
theorem not_busy_cancelled : ¬ ∀ maxWorkers ≥ 1, ∀ events, Open events →
    (run maxWorkers events).ready ≠ [] → (run maxWorkers events).AllBusy := by
  intro h
  obtain ⟨-, hbusy⟩ := h 1 le_rfl [.dispatch, .turn 0, .dispatch, .finish 0 .cancelled]
    (by decide) (by decide)
  obtain ⟨t, ht, htrue⟩ := hbusy 0 (by decide)
  obtain rfl : Worker.ended = t := Option.some.inj ht
  cases htrue

end Pool

end Adapters
