import MqttBench.Lib.Pacing

/-!
# Fixed offers, published synchronously

`due_ns`, `_owed`, `pub_fixed_sync` and `pub_fixed_nowait` of `bench/drive.py`.  The two
loops differ in how they count one publish and agree in everything else, so the tick is
one definition with that count as a parameter.

* `dueNs_le_iff` — message `i` is owed exactly from `due_ns(i)` on.
* `Paced` — what holds after a tick: everything owed is sent, rejected or skipped, and
  what was made ascends and was due.
* `Paced.tick` — one tick keeps it, however late the tick is and whatever is refused.
* `pubFixed_paced` — **both loops keep to their schedule.**
-/

namespace Drive

open Pacing

/-! ## The program -/

/-- `NS`. -/
def nsPerS : ℤ := 1000000000

/-- `TICK_NS`. -/
def tickNs : ℤ := 1000000

/-- `MAX_CATCHUP_TICKS`. -/
def maxCatchupTicks : ℤ := 4

/-- The counters of `Run` that publishing changes.  `made` is a record of the calls of
`make`, each with its index and the clock it read, for the statements only. -/
structure Run where
  sent : ℤ
  done : ℤ
  failed : ℤ
  rejected : ℤ
  skipped : ℤ
  made : List (ℤ × ℤ)

/-- `Run()`. -/
def Run.init : Run := ⟨0, 0, 0, 0, 0, []⟩

/-- A fixed offer: its rate, which is positive, and its schedule. -/
structure Offer where
  rate : ℤ
  tStart : ℤ
  tEnd : ℤ
  rate_pos : 1 ≤ rate

/-- `due_ns(index, rate, t_start)`. -/
def dueNs (o : Offer) (index : ℤ) : ℤ :=
  o.tStart + ((index + 1) * nsPerS + o.rate - 1) / o.rate

/-- `max_due`. -/
def maxDue (o : Offer) : ℤ := o.rate * tickNs * maxCatchupTicks / nsPerS + 1

/-- `_owed(rate, t_start, now, run, max_due)`: the run and what is due. -/
def owedNow (o : Offer) (now : ℤ) (run : Run) (maxDue : ℤ) : Run × ℤ :=
  let due := o.rate * (now - o.tStart) / nsPerS - run.sent - run.rejected - run.skipped
  if maxDue < due then ({ run with skipped := run.skipped + (due - maxDue) }, maxDue)
  else (run, due)

/-- What one publish meets: the clock that `make` reads, and whether the library takes
the message. -/
structure Attempt where
  clock : ℤ
  accepted : Bool

/-- The loop body of `pub_fixed_sync`. -/
def publishSync (run : Run) (index : ℤ) (a : Attempt) : Run :=
  let run := { run with made := run.made ++ [(index, a.clock)] }
  if a.accepted then { run with sent := run.sent + 1 }
  else { run with rejected := run.rejected + 1 }

/-- The loop body of `pub_fixed_nowait`: counted as sent before the call. -/
def publishNowait (run : Run) (index : ℤ) (a : Attempt) : Run :=
  let run := { run with sent := run.sent + 1 }
  let run := { run with made := run.made ++ [(index, a.clock)] }
  if a.accepted then run
  else { run with sent := run.sent - 1, rejected := run.rejected + 1 }

/-- One round of the loop: the clock it reads, and what its publishes meet. -/
structure Tick where
  now : ℤ
  attempt : ℕ → Attempt

/-- The publishes of one tick. -/
def tick (publish : Run → ℤ → Attempt → Run) (o : Offer) (t : Tick) (run : Run) : Run :=
  let (run, owed) := owedNow o t.now run (maxDue o)
  let first := run.sent + run.rejected + run.skipped
  (List.range owed.toNat).foldl (fun run (j : ℕ) => publish run (first + j) (t.attempt j)) run

/-- The loop, for as long as the ticks last: the run and `next_tick`. -/
def fixedLoop (publish : Run → ℤ → Attempt → Run) (o : Offer) :
    List Tick → Run → ℤ → Run × ℤ
  | [], run, next => (run, next)
  | t :: ticks, run, next =>
    if o.tEnd ≤ t.now then (run, next)
    else
      let run := tick publish o t run
      let next := next + tickNs
      fixedLoop publish o ticks run (if next < t.now then t.now + tickNs else next)

/-- `pub_fixed_sync`. -/
def pubFixedSync (o : Offer) (ticks : List Tick) : Run :=
  (fixedLoop publishSync o ticks Run.init o.tStart).1

/-- `pub_fixed_nowait`. -/
def pubFixedNowait (o : Offer) (ticks : List Tick) : Run :=
  (fixedLoop publishNowait o ticks Run.init o.tStart).1

/-! ## Owed and due -/

/-- What is owed at a time, before any clipping. -/
def Offer.total (o : Offer) (now : ℤ) : ℤ := o.rate * (now - o.tStart) / nsPerS

theorem nsPerS_pos : 0 < nsPerS := by decide

theorem Offer.total_eq (o : Offer) (now : ℤ) :
    o.total now = owed o.rate nsPerS (now - o.tStart) := rfl

/-- **Message `i` is owed exactly from `due_ns(i)` on.** -/
theorem dueNs_le_iff (o : Offer) (i now : ℤ) : i + 1 ≤ o.total now ↔ dueNs o i ≤ now := by
  have hr : 0 < o.rate := by have := o.rate_pos; omega
  rw [Int.add_one_le_iff, o.total_eq, lt_owed_iff hr nsPerS_pos, due, dueNs]
  omega

theorem Offer.total_mono (o : Offer) {now now' : ℤ} (h : now ≤ now') :
    o.total now ≤ o.total now' :=
  owed_mono (by have := o.rate_pos; omega) nsPerS_pos (by omega)

theorem Offer.total_nonneg (o : Offer) {now : ℤ} (h : o.tStart ≤ now) : 0 ≤ o.total now :=
  owed_nonneg (by have := o.rate_pos; omega) nsPerS_pos.le (by omega)

theorem Offer.total_start (o : Offer) : o.total o.tStart = 0 := by
  rw [total, sub_self, mul_zero, Int.zero_ediv]

theorem maxDue_pos (o : Offer) : 0 < maxDue o := by
  have hr := o.rate_pos
  have h : 0 ≤ o.rate * tickNs * maxCatchupTicks / nsPerS :=
    Int.ediv_nonneg (by rw [tickNs, maxCatchupTicks]; omega) (by decide)
  rw [maxDue]
  omega

/-! ## One publish -/

/-- A publish is made once and is counted once, as sent or as rejected. -/
structure CountsOnce (publish : Run → ℤ → Attempt → Run) : Prop where
  count : ∀ run i a,
    (publish run i a).sent + (publish run i a).rejected = run.sent + run.rejected + 1
  skipped : ∀ run i a, (publish run i a).skipped = run.skipped
  made : ∀ run i a, (publish run i a).made = run.made ++ [(i, a.clock)]

theorem countsOnce_publishSync : CountsOnce publishSync where
  count run i a := by rw [publishSync]; cases a.accepted <;> simp <;> ring
  skipped run i a := by rw [publishSync]; cases a.accepted <;> rfl
  made run i a := by rw [publishSync]; cases a.accepted <;> rfl

/-- Counting first and taking it back counts the same. -/
theorem publishNowait_eq : publishNowait = publishSync := by
  funext run i a
  rw [publishNowait, publishSync]
  cases a.accepted <;> simp

theorem countsOnce_publishNowait : CountsOnce publishNowait :=
  publishNowait_eq ▸ countsOnce_publishSync

/-! ## One tick -/

variable {publish : Run → ℤ → Attempt → Run}

/-- What `_owed` does: no more than `max_due` is due, and no more than is owed; with it,
and with what is skipped, the offer is accounted for.  An early reading changes nothing. -/
theorem owedNow_spec (o : Offer) (now : ℤ) {run run' : Run} {due : ℤ}
    (h : owedNow o now run (maxDue o) = (run', due)) :
    due = min (maxDue o) (o.total now - (run.sent + run.rejected + run.skipped)) ∧
      run'.sent = run.sent ∧ run'.rejected = run.rejected ∧ run'.made = run.made ∧
      run.skipped ≤ run'.skipped ∧
      run'.sent + run'.rejected + run'.skipped + max due 0 =
        max (run.sent + run.rejected + run.skipped) (o.total now) := by
  have hpos := maxDue_pos o
  rw [owedNow, ← Offer.total] at h
  split at h
  · obtain ⟨rfl, rfl⟩ := Prod.mk.inj h
    exact ⟨by omega, rfl, rfl, rfl, by simp only; omega, by simp only; omega⟩
  · obtain ⟨rfl, rfl⟩ := Prod.mk.inj h
    exact ⟨by omega, rfl, rfl, rfl, le_rfl, by omega⟩

/-- The publishes of a tick take the indices from `first` on, in order. -/
theorem CountsOnce.foldl (h : CountsOnce publish) (attempt : ℕ → Attempt) (first : ℤ) (n : ℕ)
    (run : Run) :
    let run' := (List.range n).foldl (fun run (j : ℕ) => publish run (first + j) (attempt j)) run
    run'.sent + run'.rejected = run.sent + run.rejected + n ∧ run'.skipped = run.skipped ∧
      run'.made = run.made ++
        (List.range n).map fun j : ℕ => (first + (j : ℤ), (attempt j).clock) := by
  induction n with
  | zero => simp
  | succ n ih =>
    obtain ⟨h1, h2, h3⟩ := ih
    rw [List.range_succ, List.foldl_append, List.foldl_cons, List.foldl_nil]
    refine ⟨?_, ?_, ?_⟩
    · rw [h.count, h1]
      push_cast
      ring
    · rw [h.skipped, h2]
    · rw [h.made, h3, List.map_append, List.append_assoc]
      rfl

/-- What holds after a tick that read `now`: everything owed is accounted for, each `make`
is an attempt, and the indices made ascend, are owed and were due when made. -/
structure Paced (o : Offer) (now : ℤ) (run : Run) : Prop where
  started : o.tStart ≤ now
  total : run.sent + run.rejected + run.skipped = o.total now
  count : (run.made.length : ℤ) = run.sent + run.rejected
  ascending : run.made.Pairwise fun a b => a.1 < b.1
  owed : ∀ e ∈ run.made, 0 ≤ e.1 ∧ e.1 < o.total now
  due : ∀ e ∈ run.made, dueNs o e.1 ≤ e.2

theorem paced_init (o : Offer) : Paced o o.tStart Run.init where
  started := le_rfl
  total := o.total_start.symm
  count := rfl
  ascending := List.Pairwise.nil
  owed _ he := absurd he List.not_mem_nil
  due _ he := absurd he List.not_mem_nil

/-- What `_owed` leaves: between nothing and `max_due` is due, and with it the offer is
accounted for. -/
theorem Paced.owedNow {o : Offer} {now now' due : ℤ} {run run' : Run} (h : Paced o now run)
    (hnow : now ≤ now') (hr : Drive.owedNow o now' run (maxDue o) = (run', due)) :
    0 ≤ due ∧ due ≤ maxDue o ∧ run'.sent = run.sent ∧ run'.rejected = run.rejected ∧
      run'.made = run.made ∧ run.skipped ≤ run'.skipped ∧
      run'.sent + run'.rejected + run'.skipped + due = o.total now' := by
  have hmono := o.total_mono hnow
  have hpos := maxDue_pos o
  have htotal := h.total
  obtain ⟨hdue, hsent, hrejected, hmade, hskipped, haccounted⟩ := owedNow_spec o now' hr
  exact ⟨by omega, by omega, hsent, hrejected, hmade, hskipped, by omega⟩

/-- **One tick keeps the schedule**, and attempts at most `max_due` publishes. -/
theorem Paced.tick {o : Offer} {now : ℤ} {run : Run} (hp : CountsOnce publish)
    (h : Paced o now run) {t : Tick} (hnow : now ≤ t.now)
    (hclock : ∀ j, t.now ≤ (t.attempt j).clock) :
    Paced o t.now (tick publish o t run) ∧
      ∃ new, (tick publish o t run).made = run.made ++ new ∧ (new.length : ℤ) ≤ maxDue o := by
  rcases hr : Drive.owedNow o t.now run (maxDue o) with ⟨run₁, due⟩
  obtain ⟨hdue0, hdue, hsent, hrej, hmade, hskipped, htotal⟩ := h.owedNow hnow hr
  obtain ⟨n, rfl⟩ := Int.eq_ofNat_of_zero_le hdue0
  obtain ⟨first, hfirst⟩ : ∃ first, first = run₁.sent + run₁.rejected + run₁.skipped := ⟨_, rfl⟩
  obtain ⟨hcount, hskip, hnew⟩ := hp.foldl t.attempt first n run₁
  have hrun : Drive.tick publish o t run = (List.range n).foldl
      (fun run (j : ℕ) => publish run (first + j) (t.attempt j)) run₁ := by
    rw [Drive.tick, hr, hfirst]
    rfl
  have hnonneg := o.total_nonneg h.started
  have hbefore : o.total now ≤ first := by
    have := h.total
    omega
  rw [hrun]
  refine ⟨⟨h.started.trans hnow, ?_, ?_, ?_, ?_, ?_⟩, _, by rw [hnew, hmade], by simpa using hdue⟩
  · rw [hskip]
    omega
  · rw [hnew, hmade, List.length_append, List.length_map, List.length_range]
    have := h.count
    push_cast
    omega
  · rw [hnew, hmade]
    refine List.pairwise_append.2 ⟨h.ascending, ?_, ?_⟩
    · rw [List.pairwise_map]
      exact List.pairwise_lt_range.imp fun {i j} hij => by simp only; omega
    · intro e he e' he'
      obtain ⟨j, -, rfl⟩ := List.mem_map.1 he'
      have := (h.owed e he).2
      simp only
      omega
  · rw [hnew, hmade]
    intro e he
    rcases List.mem_append.1 he with he | he
    · have := h.owed e he
      have := o.total_mono hnow
      omega
    · obtain ⟨j, hj, rfl⟩ := List.mem_map.1 he
      have := List.mem_range.1 hj
      simp only
      omega
  · rw [hnew, hmade]
    intro e he
    rcases List.mem_append.1 he with he | he
    · exact h.due e he
    · obtain ⟨j, hj, rfl⟩ := List.mem_map.1 he
      have hj' := List.mem_range.1 hj
      refine le_trans ?_ (hclock j)
      rw [← dueNs_le_iff]
      simp only
      omega

/-- The indices below the owed total that were never made are as many as were skipped. -/
theorem Paced.card_unmade {o : Offer} {now : ℤ} {run : Run} (h : Paced o now run) :
    (((Finset.Ico 0 (o.total now)).filter (· ∉ run.made.map Prod.fst)).card : ℤ) = run.skipped := by
  have hnodup : (run.made.map Prod.fst).Nodup :=
    (List.pairwise_map.2 h.ascending).imp fun hlt => hlt.ne
  have hsub : (run.made.map Prod.fst).toFinset ⊆ Finset.Ico 0 (o.total now) := by
    intro i hi
    obtain ⟨e, he, rfl⟩ := List.mem_map.1 (List.mem_toFinset.1 hi)
    exact Finset.mem_Ico.2 (h.owed e he)
  have hfilter : (Finset.Ico 0 (o.total now)).filter (· ∉ run.made.map Prod.fst) =
      Finset.Ico 0 (o.total now) \ (run.made.map Prod.fst).toFinset := by
    ext i
    simp
  have hcard := Finset.card_sdiff_add_card_eq_card hsub
  rw [List.toFinset_card_of_nodup hnodup, List.length_map, Int.card_Ico, sub_zero] at hcard
  have hnonneg := o.total_nonneg h.started
  have htotal := h.total
  have hcount := h.count
  rw [hfilter]
  omega

/-! ## All ticks -/

/-- The readings of a run before `t_end`: the loop's clock never goes back, and a reading
inside `make` is no earlier than that of its tick. -/
structure Readings (o : Offer) (ticks : List Tick) : Prop where
  inside : ∀ t ∈ ticks, o.tStart ≤ t.now ∧ t.now < o.tEnd
  ascending : ticks.Pairwise fun a b => a.now ≤ b.now
  clocks : ∀ t ∈ ticks, ∀ j, t.now ≤ (t.attempt j).clock

theorem Readings.init {o : Offer} {ticks : List Tick} {t : Tick} (h : Readings o (ticks ++ [t])) :
    Readings o ticks where
  inside t' ht := h.inside t' (List.mem_append_left _ ht)
  ascending := (List.pairwise_append.1 h.ascending).1
  clocks t' ht := h.clocks t' (List.mem_append_left _ ht)

/-- The last reading; `t_start` before the first. -/
def lastNow (o : Offer) (ticks : List Tick) : ℤ := (ticks.getLast?.map Tick.now).getD o.tStart

theorem lastNow_append (o : Offer) (ticks : List Tick) (t : Tick) :
    lastNow o (ticks ++ [t]) = t.now := by
  rw [lastNow, List.getLast?_append]
  rfl

theorem Readings.lastNow_le {o : Offer} {ticks : List Tick} {t : Tick}
    (h : Readings o (ticks ++ [t])) : lastNow o ticks ≤ t.now := by
  rw [lastNow]
  cases hl : ticks.getLast? with
  | none => exact (h.inside t (by simp)).1
  | some t' =>
    have hmem := List.mem_of_getLast? hl
    exact (List.pairwise_append.1 h.ascending).2.2 t' hmem t (by simp)

theorem fixedLoop_append (o : Offer) {ticks : List Tick} {t : Tick}
    (hend : ∀ t' ∈ ticks ++ [t], t'.now < o.tEnd) (run : Run) (next : ℤ) :
    (fixedLoop publish o (ticks ++ [t]) run next).1 =
      tick publish o t (fixedLoop publish o ticks run next).1 := by
  induction ticks generalizing run next with
  | nil =>
    have := hend t (by simp)
    change (fixedLoop publish o [t] run next).1 = tick publish o t run
    rw [fixedLoop, if_neg (by omega)]
    rfl
  | cons t' ticks ih =>
    have := hend t' (by simp)
    rw [List.cons_append, fixedLoop, fixedLoop, if_neg (by omega), if_neg (by omega)]
    exact ih (fun t'' ht => hend t'' (by simp at ht ⊢; tauto)) _ _

/-- **Every run keeps the schedule**, by induction on its ticks. -/
theorem paced_fixedLoop (hp : CountsOnce publish) (o : Offer) (ticks : List Tick)
    (h : Readings o ticks) :
    Paced o (lastNow o ticks) (fixedLoop publish o ticks Run.init o.tStart).1 := by
  induction ticks using List.reverseRecOn with
  | nil => exact paced_init o
  | append_singleton ticks t ih =>
    rw [lastNow_append, fixedLoop_append o fun t' ht => (h.inside t' ht).2]
    exact ((ih h.init).tick hp h.lastNow_le (h.clocks t (by simp))).1

/-- What one tick of a run has to show: `before` it and `after` it. -/
structure OnSchedule (o : Offer) (t : Tick) (before after : Run) : Prop where
  /-- Everything owed is sent, rejected or skipped. -/
  accounted : after.sent + after.rejected + after.skipped =
    o.rate * (t.now - o.tStart) / nsPerS
  /-- The tick attempts at most `max_due` publishes. -/
  clipped : ∃ new, after.made = before.made ++ new ∧ (new.length : ℤ) ≤ maxDue o
  /-- Each attempt is counted once. -/
  counted : (after.made.length : ℤ) = after.sent + after.rejected
  /-- The indices made strictly ascend over the whole run. -/
  ascending : after.made.Pairwise fun a b => a.1 < b.1
  /-- The owed indices never made are as many as were skipped. -/
  unmade : (((Finset.Ico 0 (o.rate * (t.now - o.tStart) / nsPerS)).filter
    (· ∉ after.made.map Prod.fst)).card : ℤ) = after.skipped
  /-- No lag is negative. -/
  punctual : ∀ e ∈ after.made, 0 ≤ e.2 - dueNs o e.1

theorem onSchedule_tick (hp : CountsOnce publish) {o : Offer} {ticks : List Tick} {t : Tick}
    (h : Readings o (ticks ++ [t])) :
    OnSchedule o t (fixedLoop publish o ticks Run.init o.tStart).1
      (fixedLoop publish o (ticks ++ [t]) Run.init o.tStart).1 := by
  rw [fixedLoop_append o fun t' ht => (h.inside t' ht).2]
  obtain ⟨hpaced, hnew⟩ :=
    (paced_fixedLoop hp o ticks h.init).tick hp h.lastNow_le (h.clocks t (by simp))
  exact
    { accounted := hpaced.total
      clipped := hnew
      counted := hpaced.count
      ascending := hpaced.ascending
      unmade := hpaced.card_unmade
      punctual := fun e he => sub_nonneg.2 (hpaced.due e he) }

/-- **Both loops keep to their schedule after every tick**, and a message is owed exactly
from its due time on. -/
theorem pubFixed_paced (o : Offer) (ticks : List Tick) (t : Tick)
    (h : Readings o (ticks ++ [t])) :
    OnSchedule o t (pubFixedSync o ticks) (pubFixedSync o (ticks ++ [t])) ∧
      OnSchedule o t (pubFixedNowait o ticks) (pubFixedNowait o (ticks ++ [t])) ∧
      ∀ i now, i + 1 ≤ o.rate * (now - o.tStart) / nsPerS ↔ dueNs o i ≤ now :=
  ⟨onSchedule_tick countsOnce_publishSync h, onSchedule_tick countsOnce_publishNowait h,
    dueNs_le_iff o⟩

/-- 3000 messages per second from 0 to 1 s. -/
def offer3000 : Offer := ⟨3000, 0, 1000000000, by decide⟩

/-- A tick in time and one so late that five messages are lost; every other publish is
refused. -/
theorem pubFixed_paced_example :
    OnSchedule offer3000 ⟨7000000, fun j => ⟨7000001, j % 2 = 0⟩⟩
      (pubFixedSync offer3000 [⟨1000000, fun _ => ⟨1000005, true⟩⟩])
      (pubFixedSync offer3000 [⟨1000000, fun _ => ⟨1000005, true⟩⟩,
        ⟨7000000, fun j => ⟨7000001, j % 2 = 0⟩⟩]) :=
  (pubFixed_paced offer3000 [⟨1000000, fun _ => ⟨1000005, true⟩⟩]
    ⟨7000000, fun j => ⟨7000001, j % 2 = 0⟩⟩
    { inside := by decide
      ascending := by decide
      clocks := by simp }).1

end Drive
