import MqttBench.Drive.Offer
import MqttBench.Lib.Runs
import MqttBench.Lib.Spans

/-!
# Fixed offers, awaited

`pub_fixed_awaited` of `bench/drive.py`: a pacer adds credits to a deque at every tick,
workers take them from the front, and idle workers wait on one shared future that the
pacer resolves and replaces.  Everything runs on one loop, so the pieces between two
awaits are the steps of a system, and they interleave in any order.

* `AwaitedStep` — the system: pacer ticks, the pacer's end, resumptions, completions.
* `AwaitedInv` — its invariant, with one lemma for each kind of step.
* `pubFixedAwaited_sound` — **no credit is lost, given twice or waited for in vain**, and
  the counters add up when the coroutine returns.
-/

namespace Drive

open Runs Spans

/-! ## The program -/

/-- Where a worker stands between two of its steps. -/
inductive Worker
  /-- At the head of its loop. -/
  | ready
  /-- Awaiting the gate's future number `gate`. -/
  | parked (gate : ℕ)
  /-- Awaiting the publish of a message. -/
  | publishing (index : ℤ)
  | returned
  deriving DecidableEq

/-- The state of `pub_fixed_awaited` with `n` workers.  The gate's future is a number: it
is replaced when it is resolved, so the futures below the current number are resolved.
`last`, `taken` and `lost` are records for the statements only: the pacer's last reading,
which worker took which index, and which indices were counted as skipped. -/
structure Awaited (n : ℕ) where
  run : Run
  credits : List (ℤ × ℤ)
  gate : ℕ
  gateDone : Bool
  issued : ℤ
  nextTick : ℤ
  workers : Fin n → Worker
  last : Option ℤ
  taken : List (Fin n × ℤ)
  lost : List ℤ

variable {n : ℕ}

/-- The state before the first task runs. -/
def Awaited.init (n : ℕ) (o : Offer) : Awaited n where
  run := Run.init
  credits := []
  gate := 0
  gateDone := false
  issued := 0
  nextTick := o.tStart
  workers := fun _ => .ready
  last := none
  taken := []
  lost := []

/-- The pacer's loop body, from the clock to the next sleep. -/
def Awaited.tick (o : Offer) (now : ℤ) (s : Awaited n) : Awaited n :=
  let total := o.rate * (now - o.tStart) / nsPerS
  let owed := total - s.issued - s.run.skipped
  let (clipped, due) := if maxDue o < owed then (owed - maxDue o, maxDue o) else (0, owed)
  let next := s.nextTick + tickNs
  let s := { s with
    run := { s.run with skipped := s.run.skipped + clipped }
    nextTick := if next < now then now + tickNs else next
    last := some now
    lost := s.lost ++ Spans.run (total - due - clipped) (total - due) }
  if 0 < due then
    { s with
      issued := s.issued + due
      credits := push s.credits (total - due) total
      gate := s.gate + 1 }
  else s

/-- What the pacer does after its loop. -/
def Awaited.finish (s : Awaited n) : Awaited n :=
  { s with
    run := { s.run with skipped := s.run.skipped + (s.credits.map fun c => c.2 - c.1).sum }
    credits := []
    gateDone := true
    gate := s.gate + 1
    lost := s.lost ++ elems s.credits }

/-- A worker at the head of its loop: it takes the first credit and calls `publish` with
the message of that index, or it parks, or it returns. -/
def Awaited.head (w : Fin n) (clock : ℤ) (s : Awaited n) : Awaited n :=
  match s.credits with
  | [] =>
    if s.gateDone then { s with workers := Function.update s.workers w .returned }
    else { s with workers := Function.update s.workers w (.parked s.gate) }
  | c :: credits =>
    let index := c.1
    { s with
      credits := pop c credits
      run := { s.run with
        sent := s.run.sent + 1
        made := s.run.made ++ [(index, clock)] }
      workers := Function.update s.workers w (.publishing index)
      taken := s.taken ++ [(w, index)] }

/-- A publish ends, with or without an exception. -/
def Awaited.complete (w : Fin n) (ok : Bool) (s : Awaited n) : Awaited n :=
  { s with
    run := if ok then { s.run with done := s.run.done + 1 }
      else { s.run with failed := s.run.failed + 1 }
    workers := Function.update s.workers w .ready }

/-! ## The system -/

/-- A worker can run when it is at its loop's head or the future it awaits is resolved. -/
def Awaited.Runnable (s : Awaited n) (w : Fin n) : Prop :=
  s.workers w = .ready ∨ ∃ g < s.gate, s.workers w = .parked g

/-- What can happen next. -/
inductive AwaitedAct (n : ℕ)
  | tick (now : ℤ)
  | finish (now : ℤ)
  | head (w : Fin n) (clock : ℤ)
  | complete (w : Fin n) (ok : Bool)

/-- One step on the loop.  The pacer's clock never goes back. -/
inductive AwaitedStep (o : Offer) : Awaited n → AwaitedAct n → Awaited n → Prop
  | tick {s : Awaited n} {now : ℤ} :
      s.gateDone = false → (∀ l ∈ s.last, l ≤ now) → now < o.tEnd →
      AwaitedStep o s (.tick now) (s.tick o now)
  | finish {s : Awaited n} {now : ℤ} :
      s.gateDone = false → (∀ l ∈ s.last, l ≤ now) → o.tEnd ≤ now →
      AwaitedStep o s (.finish now) s.finish
  | head {s : Awaited n} {w : Fin n} {clock : ℤ} :
      s.Runnable w → AwaitedStep o s (.head w clock) (s.head w clock)
  | complete {s : Awaited n} {w : Fin n} {ok : Bool} {index : ℤ} :
      s.workers w = .publishing index → AwaitedStep o s (.complete w ok) (s.complete w ok)

/-! ## The invariant -/

/-- The owed total of the pacer's last tick; nothing is owed before `t_start`. -/
def Awaited.total (o : Offer) (s : Awaited n) : ℤ :=
  match s.last with
  | none => 0
  | some now => max 0 (o.total now)

/-- Whether a worker awaits a publish. -/
def Worker.inFlight : Worker → ℤ
  | .publishing _ => 1
  | _ => 0

/-- How many publishes are awaited. -/
def Awaited.inFlight (s : Awaited n) : ℤ := ∑ w, (s.workers w).inFlight

/-- What holds between any two steps, when `total` was owed at the pacer's last tick. -/
structure AwaitedInv (total : ℤ) (s : Awaited n) : Prop where
  ordered : Ordered s.credits
  below : ∀ c ∈ s.credits, c.2 ≤ total
  /-- An index below the total is taken, skipped or in the deque, and once. -/
  once : ∀ i, (s.taken.map Prod.snd).count i + s.lost.count i + (elems s.credits).count i =
    if 0 ≤ i ∧ i < total then 1 else 0
  stamped : s.run.made.map Prod.fst = s.taken.map Prod.snd
  /-- A worker awaits a resolved future, or there is nothing to take and more to come. -/
  awake : ∀ w g, s.workers w = .parked g →
    g ≤ s.gate ∧ (g = s.gate → s.credits = [] ∧ s.gateDone = false)
  swept : s.gateDone = true → s.credits = []
  issued : s.gateDone = false → s.issued + s.run.skipped = total
  sum : s.run.sent + s.run.skipped + (elems s.credits).length = total
  skipped : s.run.skipped = s.lost.length
  flight : s.run.done + s.run.failed + s.inFlight = s.run.sent

theorem awaitedInv_init (n : ℕ) (o : Offer) : AwaitedInv 0 (Awaited.init n o) where
  ordered := ordered_nil
  below _ hc := absurd hc List.not_mem_nil
  once i := by
    rw [if_neg (by omega)]
    rfl
  stamped := rfl
  awake w g h := by cases h
  swept h := by cases h
  issued _ := rfl
  sum := rfl
  skipped := rfl
  flight := by simp [Awaited.init, Run.init, Awaited.inFlight, Worker.inFlight]

/-! ## The pacer -/

theorem Awaited.total_nonneg (o : Offer) (s : Awaited n) : 0 ≤ s.total o := by
  rw [total]
  cases s.last
  · exact le_rfl
  · exact le_max_left _ _

theorem Awaited.total_of_last (o : Offer) {s : Awaited n} {now : ℤ} (h : s.last = some now) :
    s.total o = max 0 (o.total now) := by rw [total, h]

/-- The total of a tick, from the one before. -/
theorem Awaited.total_le {o : Offer} {s : Awaited n} {now : ℤ} (hlast : ∀ l ∈ s.last, l ≤ now) :
    s.total o ≤ max 0 (o.total now) := by
  rw [Awaited.total]
  cases hl : s.last with
  | none => exact le_max_left _ _
  | some l => exact max_le_max_left 0 (o.total_mono (hlast l (by rw [hl]; rfl)))

theorem Awaited.tick_last (o : Offer) (now : ℤ) (s : Awaited n) :
    (s.tick o now).last = some now := by
  simp only [tick]
  split <;> split <;> rfl

/-- Everything owed at a tick is skipped or handed out, and nothing is skipped while
nothing is handed out. -/
theorem clip_cases (o : Offer) (owed : ℤ) :
    ∃ clipped due, (if maxDue o < owed then (owed - maxDue o, maxDue o) else (0, owed)) =
      (clipped, due) ∧ clipped + due = owed ∧ 0 ≤ clipped ∧ (clipped = 0 ∨ 0 < due) := by
  have hpos := maxDue_pos o
  split
  · exact ⟨_, _, rfl, by omega, by omega, .inr hpos⟩
  · exact ⟨_, _, rfl, by omega, le_rfl, .inl rfl⟩

theorem AwaitedInv.tick {o : Offer} {s : Awaited n} {now : ℤ} (h : AwaitedInv (s.total o) s)
    (hdone : s.gateDone = false) (hlast : ∀ l ∈ s.last, l ≤ now) :
    AwaitedInv ((s.tick o now).total o) (s.tick o now) := by
  have hmono := Awaited.total_le (o := o) hlast
  have htotal0 := s.total_nonneg o
  have hissued := h.issued hdone
  rw [Awaited.total_of_last o (s.tick_last o now)]
  obtain ⟨clipped, due, hclip, howed, hclipped, hdue⟩ :=
    clip_cases o (o.total now - s.issued - s.run.skipped)
  rw [Awaited.tick, ← Offer.total, hclip]
  simp only
  rw [show o.total now - due - clipped = s.total o by omega]
  generalize s.total o = before at *
  by_cases hpos : 0 < due
  · -- a run of credits is added, behind what is skipped
    rw [if_pos hpos, max_eq_right (by omega)]
    have hle : ∀ c ∈ s.credits, c.2 ≤ o.total now - due := fun c hc =>
      (h.below c hc).trans (by omega)
    have helems := elems_push h.ordered (show o.total now - due ≤ o.total now by omega)
    have hlen := length_run (show o.total now - due ≤ o.total now by omega)
    have hlost := length_run (show before ≤ o.total now - due by omega)
    refine ⟨h.ordered.push (by omega) hle, le_of_mem_push fun c hc => (hle c hc).trans (by omega),
      fun i => ?_, h.stamped, fun w g hw => ?_, fun hd => ?_, fun _ => ?_, ?_, ?_, h.flight⟩
    · have hi := h.once i
      simp only [helems, List.count_append, count_run]
      split_ifs at hi ⊢ <;> omega
    · obtain ⟨hg, -⟩ := h.awake w g hw
      exact ⟨by simp only; omega, fun heq => by simp only at heq; omega⟩
    · rw [hdone] at hd
      cases hd
    · simp only
      omega
    · have hsum := h.sum
      simp only [helems, List.length_append]
      push_cast
      omega
    · have hskipped := h.skipped
      simp only [List.length_append]
      push_cast
      omega
  · -- nothing is owed beyond what was accounted for
    have hclipped0 : clipped = 0 := hdue.resolve_right hpos
    rw [if_neg hpos, run_of_le (by omega), List.append_nil, hclipped0, add_zero,
      show max 0 (o.total now) = before by omega]
    exact { h with }

theorem AwaitedInv.finish {total : ℤ} {s : Awaited n} (h : AwaitedInv total s) :
    AwaitedInv total s.finish := by
  have hlen := length_elems h.ordered
  refine ⟨ordered_nil, fun c hc => absurd hc List.not_mem_nil, fun i => ?_, h.stamped,
    fun w g hw => ?_, fun _ => rfl, fun hd => ?_, ?_, ?_, h.flight⟩
  · rw [← h.once i]
    simp only [Awaited.finish, List.count_append, elems, List.flatMap_nil, List.count_nil]
    omega
  · obtain ⟨hg, -⟩ := h.awake w g hw
    simp only [Awaited.finish]
    exact ⟨by omega, fun heq => by omega⟩
  · cases hd
  · rw [← h.sum, hlen]
    simp only [Awaited.finish, elems, List.flatMap_nil, List.length_nil]
    push_cast
    ring
  · have hskipped := h.skipped
    simp only [Awaited.finish, List.length_append]
    push_cast
    omega

/-! ## The workers -/

/-- Moving one worker changes the number of publishes in flight by that worker's. -/
theorem inFlight_update (s : Awaited n) (w : Fin n) (v : Worker) :
    ∑ x, (Function.update s.workers w v x).inFlight =
      s.inFlight - (s.workers w).inFlight + v.inFlight := by
  have hrest : ∑ x ∈ Finset.univ.erase w, (Function.update s.workers w v x).inFlight =
      ∑ x ∈ Finset.univ.erase w, (s.workers x).inFlight :=
    Finset.sum_congr rfl fun x hx => by rw [Function.update_of_ne (Finset.ne_of_mem_erase hx)]
  rw [Awaited.inFlight, ← Finset.add_sum_erase _ _ (Finset.mem_univ w), hrest,
    Function.update_self,
    ← Finset.add_sum_erase Finset.univ (fun x => (s.workers x).inFlight) (Finset.mem_univ w)]
  ring

/-- A worker that can run awaits no publish. -/
theorem Awaited.Runnable.inFlight {s : Awaited n} {w : Fin n} (h : s.Runnable w) :
    (s.workers w).inFlight = 0 := by
  rcases h with h | ⟨g, -, h⟩ <;> rw [h] <;> rfl

/-- Moving one worker that can run, to a place where it does not wait in vain. -/
theorem AwaitedInv.move {total : ℤ} {s : Awaited n} {w : Fin n} {v : Worker}
    (h : AwaitedInv total s) (hw : s.Runnable w) (hv : v.inFlight = 0)
    (hpark : ∀ g, v = .parked g → g = s.gate ∧ s.credits = [] ∧ s.gateDone = false) :
    AwaitedInv total { s with workers := Function.update s.workers w v } := by
  refine { h with awake := fun x g hx => ?_, flight := ?_ }
  · by_cases hxw : x = w
    · rw [hxw] at hx
      simp only [Function.update_self] at hx
      obtain ⟨rfl, hc, hd⟩ := hpark g hx
      exact ⟨le_rfl, fun _ => ⟨hc, hd⟩⟩
    · simp only [Function.update_of_ne hxw] at hx
      exact h.awake x g hx
  · have hsum := inFlight_update s w v
    rw [hw.inFlight, hv, sub_zero, add_zero] at hsum
    exact (congrArg _ hsum).trans h.flight

theorem Awaited.head_total (o : Offer) (w : Fin n) (clock : ℤ) (s : Awaited n) :
    (s.head w clock).total o = s.total o := by
  rw [head]
  split
  · split <;> rfl
  · rfl

theorem AwaitedInv.head {total : ℤ} {s : Awaited n} {w : Fin n} (h : AwaitedInv total s)
    (hw : s.Runnable w) (clock : ℤ) : AwaitedInv total (s.head w clock) := by
  rw [Awaited.head]
  split
  · next hc =>
    split
    · exact h.move hw rfl fun g hg => by cases hg
    · next hd =>
      exact h.move hw rfl fun g hg => by
        cases hg
        exact ⟨rfl, hc, by simpa using hd⟩
  · next c credits hc =>
    have hordered := h.ordered
    have hbelow := h.below
    have hsum := h.sum
    rw [hc] at hordered hbelow hsum
    have hpop := elems_pop (hordered.nonempty c (by simp)) credits
    refine ⟨hordered.pop, le_of_mem_pop hbelow, fun i => ?_, ?_, fun x g hx => ?_, fun hd => ?_,
      h.issued, ?_, h.skipped, ?_⟩
    · rw [← h.once i, hc, hpop]
      simp only [List.map_append, List.count_append, List.map_cons, List.map_nil, List.count_cons]
      simp
      omega
    · simp [h.stamped]
    · -- the deque was not empty, so whoever waits waits for a resolved future
      by_cases hxw : x = w
      · rw [hxw] at hx
        simp only [Function.update_self] at hx
        cases hx
      · simp only [Function.update_of_ne hxw] at hx
        obtain ⟨hg, hwait⟩ := h.awake x g hx
        exact ⟨hg, fun heq => absurd (hwait heq).1 (by simp [hc])⟩
    · have := h.swept hd
      rw [hc] at this
      cases this
    · rw [hpop] at hsum
      simp only [List.length_cons] at hsum ⊢
      push_cast at hsum
      omega
    · have hupdate := inFlight_update s w (.publishing c.1)
      rw [hw.inFlight] at hupdate
      have hflight := h.flight
      simp only [Awaited.inFlight]
      rw [hupdate, Worker.inFlight]
      omega

theorem AwaitedInv.complete {total : ℤ} {s : Awaited n} {w : Fin n} {index : ℤ}
    (h : AwaitedInv total s) (hw : s.workers w = .publishing index) (ok : Bool) :
    AwaitedInv total (s.complete w ok) := by
  have hflight : (s.complete w ok).run.done + (s.complete w ok).run.failed +
      (s.complete w ok).inFlight = s.run.sent := by
    have hupdate := inFlight_update s w .ready
    rw [hw] at hupdate
    have hone : (s.complete w ok).inFlight = s.inFlight - 1 := hupdate.trans (add_zero _)
    have := h.flight
    rw [hone]
    cases ok
    · change s.run.done + (s.run.failed + 1) + _ = _
      omega
    · change s.run.done + 1 + s.run.failed + _ = _
      omega
  have hawake : ∀ x g, (s.complete w ok).workers x = .parked g →
      g ≤ s.gate ∧ (g = s.gate → s.credits = [] ∧ s.gateDone = false) := by
    intro x g hx
    by_cases hxw : x = w
    · rw [hxw] at hx
      simp only [Awaited.complete, Function.update_self] at hx
      cases hx
    · simp only [Awaited.complete, Function.update_of_ne hxw] at hx
      exact h.awake x g hx
  cases ok
  · exact { h with awake := hawake, flight := hflight }
  · exact { h with awake := hawake, flight := hflight }

/-! ## All runs -/

/-- The system starts before any task has run. -/
def AwaitedInit (o : Offer) (s : Awaited n) : Prop := s = Awaited.init n o

/-- **Every step keeps the invariant.** -/
theorem awaitedInv (o : Offer) :
    Invariant (AwaitedInit o) (AwaitedStep o) fun s : Awaited n => AwaitedInv (s.total o) s where
  init h := by
    rw [h]
    exact awaitedInv_init n o
  step h hs := by
    cases hs with
    | tick hdone hlast _ => exact h.tick hdone hlast
    | finish _ _ _ => exact h.finish
    | @head w clock hw =>
      rw [Awaited.head_total]
      exact h.head hw clock
    | @complete w ok _ hw => exact h.complete hw ok

/-- What a caller sees of the coroutine in one state. -/
structure HandsOut (o : Offer) (s : Awaited n) : Prop where
  /-- The deque holds ranges that are not empty, disjoint and ascending. -/
  spans : (∀ c ∈ s.credits, c.1 < c.2) ∧ s.credits.Pairwise fun a b => a.2 ≤ b.1
  /-- An index below the owed total is taken once, skipped once or in the deque once, and
  just one of these. -/
  once : ∀ i, 0 ≤ i → i < s.total o →
    (s.taken.map Prod.snd).count i + s.lost.count i + (elems s.credits).count i = 1
  /-- No other index is anywhere. -/
  only : ∀ i, i < 0 ∨ s.total o ≤ i →
    i ∉ s.taken.map Prod.snd ∧ i ∉ s.lost ∧ i ∉ elems s.credits
  /-- What `run.skipped` counts are the indices lost. -/
  skipped : s.run.skipped = s.lost.length
  /-- A worker stamps the index it took. -/
  stamped : s.run.made.map Prod.fst = s.taken.map Prod.snd
  /-- No worker awaits an unresolved future while there are credits or the pacer is done. -/
  awake : s.credits ≠ [] ∨ s.gateDone = true → ∀ w g, s.workers w = .parked g → s.Runnable w
  /-- When the coroutine returns, everything owed at the last tick is sent or skipped, and
  everything sent is done or failed. -/
  returned : s.gateDone = true → (∀ w, s.workers w = .returned) →
    (∀ now ∈ s.last, s.run.sent + s.run.skipped =
      max 0 (o.rate * (now - o.tStart) / nsPerS)) ∧
    (s.last = none → s.run.sent + s.run.skipped = 0) ∧
    s.run.done + s.run.failed = s.run.sent

theorem AwaitedInv.handsOut {o : Offer} {s : Awaited n} (h : AwaitedInv (s.total o) s) :
    HandsOut o s where
  spans := ⟨h.ordered.nonempty, h.ordered.ascending⟩
  once i h0 hi := by rw [h.once, if_pos ⟨h0, hi⟩]
  only i hi := by
    have hcount := h.once i
    rw [if_neg (by omega)] at hcount
    refine ⟨?_, ?_, ?_⟩ <;> rw [← List.count_eq_zero] <;> omega
  skipped := h.skipped
  stamped := h.stamped
  awake hmore w g hw := by
    obtain ⟨hle, hwait⟩ := h.awake w g hw
    refine .inr ⟨g, lt_of_le_of_ne hle fun heq => ?_, hw⟩
    obtain ⟨hempty, hdone⟩ := hwait heq
    rcases hmore with hmore | hmore
    · exact hmore hempty
    · rw [hdone] at hmore
      cases hmore
  returned hdone hall := by
    have hsum := h.sum
    have hflight := h.flight
    have hzero : s.inFlight = 0 := Finset.sum_eq_zero fun w _ => by rw [hall w]; rfl
    rw [h.swept hdone] at hsum
    simp only [elems, List.flatMap_nil, List.length_nil, Nat.cast_zero, add_zero] at hsum
    refine ⟨fun now hnow => hsum.trans (s.total_of_last o hnow), fun hnone => ?_, by omega⟩
    rw [hsum, Awaited.total, hnone]

/-- **No credit is lost, given twice or waited for in vain**, in any order of ticks,
resumptions and completions, and the counters add up when the coroutine returns. -/
theorem pubFixedAwaited_sound (o : Offer) (s : Awaited n)
    (h : Reachable (AwaitedInit o) (AwaitedStep o) s) : HandsOut o s :=
  (h.holds (awaitedInv o)).handsOut

/-- One worker parks, is woken by a tick that owes three messages, publishes the first and
returns after the pacer has swept the rest. -/
def awaitedExample : Awaited 1 :=
  ((((((Awaited.init 1 offer3000).head 0 5).tick offer3000 1000000).head 0 1000003).complete 0
    true).finish).head 0 1000000002

theorem pubFixedAwaited_sound_example :
    awaitedExample.run.sent = 1 ∧ awaitedExample.run.skipped = 2 ∧
      HandsOut offer3000 awaitedExample := by
  have h0 : Reachable (AwaitedInit offer3000) (AwaitedStep offer3000) (Awaited.init 1 offer3000) :=
    .start rfl
  have h1 := h0.next (a := .head 0 5) (.head (.inl rfl))
  have h2 := h1.next (a := .tick 1000000) (.tick rfl (by decide) (by decide))
  have h3 := h2.next (a := .head 0 1000003) (.head (.inr ⟨0, by decide, by decide⟩))
  have h4 := h3.next (a := .complete 0 true) (.complete (show _ = Worker.publishing 0 by decide))
  have h5 := h4.next (a := .finish 1000000000) (.finish rfl (by decide) (by decide))
  have h6 := h5.next (a := .head 0 1000000002) (.head (.inl (by decide)))
  exact ⟨by decide, by decide, pubFixedAwaited_sound offer3000 awaitedExample h6⟩

end Drive
