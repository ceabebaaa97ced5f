import MqttBench.Drive.Accounting

/-!
# The send times of a fixed offer

`run.sends`, the payload makers that fill it and `Run.window_lags` that reads it, of
`bench/drive.py`.

* `enumerateSlice_eq` — the slice of the table that `window_lags` walks over.
* `windowLags_measured_iff` — **it walks over the messages due in the measured window
  exactly when none is due at a boundary of it.**
* `sendLoop_run` — the loops of a fixed offer with their table are the loops without it.
* `Filled` — the invariant of a run: the table holds the time of every message made.
* `sends_recorded_iff` — **the table records what the library accepted exactly when the
  library accepts everything.**
-/

namespace Drive

open Pacing

/-! ## The table -/

/-- `UNSENT`. -/
def unsent : ℤ := -1

/-- `run.sends` and `run.send_overflow`. -/
structure SendTable where
  sends : List ℤ
  overflow : ℤ

/-- The table of `Run(send_capacity)`. -/
def SendTable.init (sendCapacity : ℕ) : SendTable := ⟨List.replicate sendCapacity unsent, 0⟩

/-- `sends[index] = now` in the makers, with their `except IndexError`.  A negative index
counts from the end. -/
def SendTable.store (t : SendTable) (index now : ℤ) : SendTable :=
  if 0 ≤ index ∧ index < t.sends.length then { t with sends := t.sends.set index.toNat now }
  else if index < 0 ∧ 0 ≤ t.sends.length + index then
    { t with sends := t.sends.set (t.sends.length + index).toNat now }
  else { t with overflow := t.overflow + 1 }

/-- Where a bound of a slice falls: a negative one counts from the end. -/
def sliceBound (n : ℕ) (bound : ℤ) : ℕ :=
  if bound < 0 then (n + bound).toNat else min n bound.toNat

/-- `enumerate(sends[lo:hi], lo)`. -/
def enumerateSlice (sends : List ℤ) (lo hi : ℤ) : List (ℤ × ℤ) :=
  ((sends.take (sliceBound sends.length hi)).drop (sliceBound sends.length lo)).zipIdx.map
    fun e => (lo + e.2, e.1)

/-- `lo` and `hi` of `window_lags`. -/
def lagBounds (o : Offer) (tMeasure : ℤ) (sends : List ℤ) : ℤ × ℤ :=
  (min (o.rate * (tMeasure - o.tStart) / nsPerS) sends.length,
    min (o.rate * (o.tEnd - o.tStart) / nsPerS) sends.length)

/-- `run.window_lags(rate, t_start, t_measure, t_end)`. -/
def windowLags (o : Offer) (tMeasure : ℤ) (sends : List ℤ) : List ℤ × ℤ :=
  let (lo, hi) := lagBounds o tMeasure sends
  let lags := (enumerateSlice sends lo hi).filterMap fun (i, sent) =>
    if sent ≠ unsent then some (sent - dueNs o i) else none
  (lags, (hi - lo) - lags.length)

/-! ## The window -/

/-- A slice inside the table lists its indices with what is stored there. -/
theorem enumerateSlice_eq (sends : List ℤ) {lo hi : ℕ} (hlo : lo ≤ hi) (hhi : hi ≤ sends.length) :
    enumerateSlice sends lo hi =
      (List.range' lo (hi - lo)).map fun i : ℕ => ((i : ℤ), sends.getD i unsent) := by
  have hbound : ∀ k : ℕ, k ≤ sends.length → sliceBound sends.length k = k := by
    intro k hk
    rw [sliceBound, if_neg (by omega), Int.toNat_natCast, min_eq_right hk]
  unfold enumerateSlice
  rw [hbound lo (hlo.trans hhi), hbound hi hhi]
  apply List.ext_getElem
  · simp
    omega
  · intro i h1 h2
    simp only [List.length_map, List.length_range'] at h2
    have hi : lo + i < sends.length := by omega
    simp [List.getElem?_eq_getElem hi]

/-- The messages that `window_lags` walks over: those that yield a lag and those that it
counts as unsent. -/
def examined (o : Offer) (tMeasure : ℤ) (sends : List ℤ) : List ℕ :=
  let (lo, hi) := lagBounds o tMeasure sends
  List.range' lo.toNat (hi.toNat - lo.toNat)

/-- A schedule in order, and a table that reaches to its end. -/
structure LongEnough (o : Offer) (tMeasure : ℤ) (sends : List ℤ) : Prop where
  measure : o.tStart ≤ tMeasure
  finish : tMeasure ≤ o.tEnd
  table : o.rate * (o.tEnd - o.tStart) / nsPerS ≤ sends.length

theorem LongEnough.bounds {o : Offer} {tMeasure : ℤ} {sends : List ℤ}
    (h : LongEnough o tMeasure sends) :
    ∃ lo hi : ℕ, lagBounds o tMeasure sends = (↑lo, ↑hi) ∧ lo ≤ hi ∧ hi ≤ sends.length ∧
      (lo : ℤ) = o.total tMeasure ∧ (hi : ℤ) = o.total o.tEnd := by
  have hlo := o.total_nonneg h.measure
  have hmono := o.total_mono h.finish
  have htable : o.total o.tEnd ≤ sends.length := h.table
  obtain ⟨lo, hlo'⟩ := Int.eq_ofNat_of_zero_le hlo
  obtain ⟨hi, hhi'⟩ := Int.eq_ofNat_of_zero_le (hlo.trans hmono)
  refine ⟨lo, hi, ?_, by omega, by omega, hlo'.symm, hhi'.symm⟩
  rw [lagBounds, ← Offer.total, ← Offer.total]
  exact Prod.ext (by simp only; omega) (by simp only; omega)

/-- The lag of a message, if it was published. -/
def lagOf (o : Offer) (sends : List ℤ) (i : ℕ) : Option ℤ :=
  if sends.getD i unsent ≠ unsent then some (sends.getD i unsent - dueNs o i) else none

/-- What `window_lags` returns is read off the messages it walks over. -/
theorem windowLags_eq {o : Offer} {tMeasure : ℤ} {sends : List ℤ}
    (h : LongEnough o tMeasure sends) :
    (windowLags o tMeasure sends).1 = (examined o tMeasure sends).filterMap (lagOf o sends) ∧
      (windowLags o tMeasure sends).2 =
        (examined o tMeasure sends).countP fun i => (lagOf o sends i).isNone := by
  obtain ⟨lo, hi, hbounds, hle, hhi, -, -⟩ := h.bounds
  have hlags : (windowLags o tMeasure sends).1
      = (examined o tMeasure sends).filterMap (lagOf o sends) := by
    rw [windowLags, examined, hbounds]
    simp only [enumerateSlice_eq sends hle hhi, Int.toNat_natCast, List.filterMap_map]
    rfl
  refine ⟨hlags, ?_⟩
  have hunsent : (windowLags o tMeasure sends).2
      = (hi : ℤ) - lo - (windowLags o tMeasure sends).1.length := by
    rw [windowLags, hbounds]
  have hsplit := List.length_eq_countP_add_countP (fun i => (lagOf o sends i).isSome)
    (l := examined o tMeasure sends)
  have hlength : (examined o tMeasure sends).length = hi - lo := by
    rw [examined, hbounds]
    simp
  rw [hunsent, hlags, List.length_filterMap_eq_countP]
  have hnone : (fun i => decide ¬(lagOf o sends i).isSome = true)
      = fun i => (lagOf o sends i).isNone := by
    funext i
    cases lagOf o sends i <;> rfl
  rw [hnone] at hsplit
  omega

/-- It walks over the messages due after `t_measure` and up to `t_end`. -/
theorem mem_examined_iff {o : Offer} {tMeasure : ℤ} {sends : List ℤ}
    (h : LongEnough o tMeasure sends) (i : ℕ) :
    i ∈ examined o tMeasure sends ↔ tMeasure < dueNs o i ∧ dueNs o i ≤ o.tEnd := by
  obtain ⟨lo, hi, hbounds, hle, hhi, hlo, hhi'⟩ := h.bounds
  have h1 := dueNs_le_iff o i tMeasure
  have h2 := dueNs_le_iff o i o.tEnd
  rw [examined, hbounds]
  simp only [Int.toNat_natCast, List.mem_range'_1]
  omega

/-- No message is due at this very time. -/
theorem forall_dueNs_ne_iff (o : Offer) {time : ℤ} (h : o.tStart ≤ time) :
    (∀ i : ℕ, dueNs o i ≠ time) ↔
      time = o.tStart ∨ o.rate ≤ o.rate * (time - o.tStart) % nsPerS := by
  have hr : 0 < o.rate := by have := o.rate_pos; omega
  have hdue := exists_due_eq_iff hr nsPerS_pos (show 0 ≤ time - o.tStart by omega)
  have hshift : ∀ i : ℕ, dueNs o i = time ↔ due o.rate nsPerS i = time - o.tStart := by
    intro i
    rw [dueNs, due]
    omega
  have hexists : (∃ i : ℕ, dueNs o i = time) ↔
      0 < time - o.tStart ∧ o.rate * (time - o.tStart) % nsPerS < o.rate := by
    rw [← hdue]
    exact exists_congr hshift
  rw [← not_iff_not, not_forall]
  simp only [not_not, hexists]
  omega

/-- `window_lags` walks over the messages due in the half-open window from `t_measure` to
`t_end`. -/
def Measured (o : Offer) (tMeasure : ℤ) (sends : List ℤ) : Prop :=
  ∀ i : ℕ, i ∈ examined o tMeasure sends ↔ tMeasure ≤ dueNs o i ∧ dueNs o i < o.tEnd

/-- **The window of the lags is the measured window exactly when no message is due at
`t_measure` or at `t_end`.** -/
theorem windowLags_measured_iff (o : Offer) (tMeasure : ℤ) (sends : List ℤ)
    (hmeasure : o.tStart ≤ tMeasure) (hend : tMeasure < o.tEnd)
    (hlong : o.rate * (o.tEnd - o.tStart) / nsPerS ≤ sends.length) :
    (windowLags o tMeasure sends).1 = (examined o tMeasure sends).filterMap (lagOf o sends) ∧
      (windowLags o tMeasure sends).2 =
        (examined o tMeasure sends).countP (fun i => (lagOf o sends i).isNone) ∧
      (Measured o tMeasure sends ↔
        (tMeasure = o.tStart ∨ o.rate ≤ o.rate * (tMeasure - o.tStart) % nsPerS) ∧
          o.rate ≤ o.rate * (o.tEnd - o.tStart) % nsPerS) := by
  have h : LongEnough o tMeasure sends := ⟨hmeasure, hend.le, hlong⟩
  have hboth : Measured o tMeasure sends ↔
      (∀ i : ℕ, dueNs o i ≠ tMeasure) ∧ ∀ i : ℕ, dueNs o i ≠ o.tEnd := by
    constructor
    · intro hm
      refine ⟨?_, ?_⟩
      · intro i hi
        have := ((hm i).2 (by omega))
        have := (mem_examined_iff h i).1 this
        omega
      · intro i hi
        have := (hm i).1 ((mem_examined_iff h i).2 (by omega))
        omega
    · rintro ⟨h1, h2⟩ i
      have := h1 i
      have := h2 i
      rw [mem_examined_iff h]
      omega
  refine ⟨(windowLags_eq h).1, (windowLags_eq h).2, ?_⟩
  rw [hboth, forall_dueNs_ne_iff o hmeasure, forall_dueNs_ne_iff o (hmeasure.trans hend.le)]
  have hne : o.tEnd ≠ o.tStart := by omega
  simp only [hne, false_or]

/-- Half a millisecond past a due time, at both ends. -/
theorem windowLags_measured_iff_example :
    Measured ⟨1000, 0, 50500000, by decide⟩ 20500000 (List.replicate 50 unsent) :=
  (windowLags_measured_iff ⟨1000, 0, 50500000, by decide⟩ 20500000 (List.replicate 50 unsent)
    (by decide) (by decide) (by decide)).2.2.2 ⟨.inr (by decide), by decide⟩

/-- At 1000 messages per second, measured from 20 ms to 50 ms, message 19 is due at 20 ms
and is left out, and message 49 is due at 50 ms, when no loop publishes any more, and is
counted as never published. -/
theorem windowLags_measured_counterexample :
    ¬ Measured ⟨1000, 0, 50000000, by decide⟩ 20000000 (List.replicate 100 unsent) ∧
      19 ∉ examined ⟨1000, 0, 50000000, by decide⟩ 20000000 (List.replicate 100 unsent) ∧
      dueNs ⟨1000, 0, 50000000, by decide⟩ 19 = 20000000 ∧
      49 ∈ examined ⟨1000, 0, 50000000, by decide⟩ 20000000 (List.replicate 100 unsent) ∧
      dueNs ⟨1000, 0, 50000000, by decide⟩ 49 = 50000000 ∧
      (windowLags ⟨1000, 0, 50000000, by decide⟩ 20000000
        ((List.range 49).map (fun i : ℕ => (i + 1 : ℤ) * 1000000) ++ [unsent])).2 = 1 := by
  refine ⟨?_, by decide, by decide, by decide, by decide, by decide⟩
  intro h
  have := (h 49).1 (by decide)
  revert this
  decide

/-! ## The makers -/

/-- `make(index)` when the clock reads `now`: the table after it and the payload. -/
abbrev Maker := SendTable → (index now : ℤ) → SendTable × List UInt8

/-- `now.to_bytes(8, "little")`. -/
def toBytes8 (now : ℤ) : List UInt8 :=
  (List.range 8).map fun i => UInt8.ofNat (now.toNat / 256 ^ i % 256)

/-- The text of both makers' `ValueError`. -/
def noRoomForStamp : String := "a fixed offer needs 8 payload bytes for the send stamp"

/-- `fixed_payload_maker(size, run)`. -/
def fixedPayloadMaker (size : ℕ) : Except String Maker :=
  if size < 8 then .error noRoomForStamp
  else
    let tail := List.replicate (size - 8) 0x41
    .ok fun t index now => (t.store index now, toBytes8 now ++ tail)

/-- `cycling_payload_maker(sizes, run)`; `min` refuses an empty list. -/
def cyclingPayloadMaker (sizes : List ℕ) : Except String Maker :=
  match sizes.min? with
  | none => .error "min() iterable argument is empty"
  | some least =>
    if least < 8 then .error noRoomForStamp
    else
      let tails := sizes.map fun size => List.replicate (size - 8) 0x41
      .ok fun t index now =>
        (t.store index now, toBytes8 now ++ tails.getD (index % tails.length).toNat [])

/-- `make` is one of the two makers of fixed offers. -/
def IsFixedMaker (make : Maker) : Prop :=
  (∃ size, fixedPayloadMaker size = .ok make) ∨ ∃ sizes, cyclingPayloadMaker sizes = .ok make

/-- Both store the time first, and nothing else. -/
theorem IsFixedMaker.stores {make : Maker} (h : IsFixedMaker make) (t : SendTable)
    (index now : ℤ) : (make t index now).1 = t.store index now := by
  rcases h with ⟨size, h⟩ | ⟨sizes, h⟩
  · rw [fixedPayloadMaker] at h
    split at h
    · cases h
    · obtain rfl := Except.ok.inj h
      rfl
  · rw [cyclingPayloadMaker] at h
    split at h
    · cases h
    · split at h
      · cases h
      · obtain rfl := Except.ok.inj h
        rfl

/-! ## The loops with their table -/

/-- A call of `publish`, for the statements: the index and payload of the message, and
whether the library took it. -/
structure Publish where
  index : ℤ
  payload : List UInt8
  accepted : Bool

/-- The counters, the table and the calls so far. -/
structure Sending where
  run : Run
  table : SendTable
  calls : List Publish

/-- `Run(send_capacity)`, before the loop. -/
def Sending.init (sendCapacity : ℕ) : Sending := ⟨Run.init, SendTable.init sendCapacity, []⟩

/-- The loop body: `publish(topic, make(index), qos)` and its counters. -/
def Sending.publish (publish : Run → ℤ → Attempt → Run) (make : Maker) (s : Sending) (index : ℤ)
    (a : Attempt) : Sending :=
  let (table, payload) := make s.table index a.clock
  { run := publish s.run index a
    table
    calls := s.calls ++ [⟨index, payload, a.accepted⟩] }

/-- The publishes of one tick. -/
def Sending.tick (publish : Run → ℤ → Attempt → Run) (make : Maker) (o : Offer) (t : Tick)
    (s : Sending) : Sending :=
  let (run, owed) := owedNow o t.now s.run (maxDue o)
  let first := run.sent + run.rejected + run.skipped
  (List.range owed.toNat).foldl
    (fun s (j : ℕ) => s.publish publish make (first + j) (t.attempt j)) { s with run }

/-- The loop, for as long as the ticks last. -/
def sendLoop (publish : Run → ℤ → Attempt → Run) (make : Maker) (o : Offer) :
    List Tick → Sending → ℤ → Sending × ℤ
  | [], s, next => (s, next)
  | t :: ticks, s, next =>
    if o.tEnd ≤ t.now then (s, next)
    else
      let s := s.tick publish make o t
      let next := next + tickNs
      sendLoop publish make o ticks s (if next < t.now then t.now + tickNs else next)

/-- `pub_fixed_sync` with the payloads of `make`. -/
def sendFixedSync (make : Maker) (sendCapacity : ℕ) (o : Offer) (ticks : List Tick) : Sending :=
  (sendLoop publishSync make o ticks (Sending.init sendCapacity) o.tStart).1

/-- `pub_fixed_nowait` with the payloads of `make`. -/
def sendFixedNowait (make : Maker) (sendCapacity : ℕ) (o : Offer) (ticks : List Tick) : Sending :=
  (sendLoop publishNowait make o ticks (Sending.init sendCapacity) o.tStart).1

/-! ## What a tick does -/

variable {publish : Run → ℤ → Attempt → Run} {make : Maker}

theorem Sending.foldl_publish (hm : IsFixedMaker make) (attempt : ℕ → Attempt) (first : ℤ) (n : ℕ)
    (s : Sending) :
    let s' := (List.range n).foldl
      (fun s (j : ℕ) => s.publish publish make (first + j) (attempt j)) s
    s'.run = (List.range n).foldl (fun run (j : ℕ) => publish run (first + j) (attempt j)) s.run ∧
      s'.table = (List.range n).foldl
        (fun t (j : ℕ) => t.store (first + j) (attempt j).clock) s.table ∧
      s'.calls.map (fun c => (c.index, c.accepted)) = s.calls.map (fun c => (c.index, c.accepted)) ++
        (List.range n).map fun j : ℕ => (first + (j : ℤ), (attempt j).accepted) := by
  induction n with
  | zero => simp
  | succ n ih =>
    obtain ⟨hrun, htable, hcalls⟩ := ih
    simp only [List.range_succ, List.foldl_append, List.foldl_cons, List.foldl_nil,
      List.map_append, List.map_cons, List.map_nil]
    refine ⟨?_, ?_, ?_⟩
    · rw [Sending.publish, hrun]
    · rw [Sending.publish, ← htable]
      exact hm.stores _ _ _
    · rw [Sending.publish, List.map_append, hcalls, List.append_assoc]
      rfl

/-- The table does not touch the counters. -/
theorem Sending.tick_run (hm : IsFixedMaker make) (o : Offer) (t : Tick) (s : Sending) :
    (s.tick publish make o t).run = Drive.tick publish o t s.run := by
  rw [Sending.tick, Drive.tick]
  exact (Sending.foldl_publish hm _ _ _ _).1

/-- **The loop with its table is the loop without it.** -/
theorem sendLoop_run (hm : IsFixedMaker make) (o : Offer) (ticks : List Tick) (s : Sending)
    (next : ℤ) :
    ((sendLoop publish make o ticks s next).1.run, (sendLoop publish make o ticks s next).2)
      = fixedLoop publish o ticks s.run next := by
  induction ticks generalizing s next with
  | nil => rfl
  | cons t ticks ih =>
    rw [sendLoop, fixedLoop]
    split
    · rfl
    · rw [← Sending.tick_run hm]
      exact ih _ _

/-! ## What the table holds -/

/-- What holds of a run with a table of `n` places: the messages made are accounted for, in
order and each once, and exactly these have a time in the table. -/
structure Filled (n : ℕ) (s : Sending) : Prop where
  nonneg : 0 ≤ s.run.accounted
  within : ∀ c ∈ s.calls, 0 ≤ c.index ∧ c.index < s.run.accounted
  ascending : s.calls.Pairwise fun a b => a.index < b.index
  length : s.table.sends.length = n
  filled : ∀ i : ℕ, i < n → (s.table.sends.getD i unsent ≠ unsent ↔ ∃ c ∈ s.calls, c.index = i)
  sent : s.run.sent = s.calls.countP (·.accepted)
  rejected : s.run.rejected = s.calls.countP (!·.accepted)

theorem filled_init (n : ℕ) : Filled n (Sending.init n) where
  nonneg := le_rfl
  within _ h := absurd h List.not_mem_nil
  ascending := List.Pairwise.nil
  length := List.length_replicate
  filled i hi := by
    apply iff_of_false (not_not.2 (List.getD_replicate _ hi))
    rintro ⟨c, hc, -⟩
    cases hc
  sent := rfl
  rejected := rfl

/-- Messages given up have no place in the table. -/
theorem Filled.skip {n : ℕ} {s : Sending} (h : Filled n s) {run : Run} (hsent : run.sent = s.run.sent)
    (hrejected : run.rejected = s.run.rejected) (hskipped : s.run.skipped ≤ run.skipped) :
    Filled n { s with run } := by
  have hle : s.run.accounted ≤ run.accounted := by
    rw [Run.accounted, Run.accounted, hsent, hrejected]
    omega
  exact
    { nonneg := h.nonneg.trans hle
      within := fun c hc => ⟨(h.within c hc).1, (h.within c hc).2.trans_le hle⟩
      ascending := h.ascending
      length := h.length
      filled := h.filled
      sent := hsent.trans h.sent
      rejected := hrejected.trans h.rejected }

theorem accounted_publishSync (run : Run) (i : ℤ) (a : Attempt) :
    (publishSync run i a).accounted = run.accounted + 1 := by
  have hcount := countsOnce_publishSync.count run i a
  have hskipped := countsOnce_publishSync.skipped run i a
  rw [Run.accounted, Run.accounted, hskipped, hcount]
  ring

/-- **One publish of the next message keeps the table**, whether it is accepted or not. -/
theorem Filled.published {n : ℕ} {s : Sending} (hm : IsFixedMaker make) (h : Filled n s)
    (hn : s.run.accounted < n) {a : Attempt} (hclock : 0 ≤ a.clock) :
    Filled n (s.publish publishSync make s.run.accounted a) := by
  have hnonneg := h.nonneg
  obtain ⟨k, hk⟩ := Int.eq_ofNat_of_zero_le hnonneg
  have hstore : (s.publish publishSync make s.run.accounted a).table.sends
      = s.table.sends.set k a.clock := by
    unfold Sending.publish
    simp only [hm.stores]
    rw [SendTable.store, if_pos ⟨hnonneg, by rw [h.length]; exact hn⟩, hk, Int.toNat_natCast]
  have hcalls : ∀ i : ℕ, (∃ c ∈ (s.publish publishSync make s.run.accounted a).calls, c.index = i) ↔
      (∃ c ∈ s.calls, c.index = i) ∨ s.run.accounted = i := by
    intro i
    simp [Sending.publish, or_and_right, exists_or]
  have haccounted := accounted_publishSync s.run s.run.accounted a
  refine ⟨?_, ?_, ?_, ?_, ?_, ?_, ?_⟩
  · change 0 ≤ (publishSync s.run s.run.accounted a).accounted
    omega
  · intro c hc
    change 0 ≤ c.index ∧ c.index < (publishSync s.run s.run.accounted a).accounted
    rw [haccounted]
    rcases List.mem_append.1 hc with hc | hc
    · have := h.within c hc
      omega
    · rw [List.mem_singleton.1 hc]
      simp only
      omega
  · refine List.pairwise_append.2 ⟨h.ascending, List.pairwise_singleton _ _, ?_⟩
    intro c hc d hd
    rw [List.mem_singleton.1 hd]
    exact (h.within c hc).2
  · rw [hstore, List.length_set, h.length]
  · intro i hi
    rw [hcalls, hstore, ← h.filled i hi]
    by_cases hik : k = i
    · subst hik
      have hget : (s.table.sends.set k a.clock).getD k unsent = a.clock := by
        rw [List.getD_eq_getElem?_getD, List.getElem?_set_self (by rw [h.length]; exact hi)]
        rfl
      rw [hget, iff_true_right (.inr hk), unsent]
      omega
    · have hget : (s.table.sends.set k a.clock).getD i unsent = s.table.sends.getD i unsent := by
        rw [List.getD_eq_getElem?_getD, List.getElem?_set_ne hik, ← List.getD_eq_getElem?_getD]
      rw [hget]
      have : s.run.accounted ≠ i := by omega
      tauto
  · have := h.sent
    simp only [Sending.publish, publishSync, List.countP_append, List.countP_singleton]
    cases a.accepted <;> simp <;> omega
  · have := h.rejected
    simp only [Sending.publish, publishSync, List.countP_append, List.countP_singleton]
    cases a.accepted <;> simp <;> omega

theorem Filled.foldl {n : ℕ} {s : Sending} (hm : IsFixedMaker make) (h : Filled n s)
    {attempt : ℕ → Attempt} (hclock : ∀ j, 0 ≤ (attempt j).clock) {count : ℕ}
    (hn : s.run.accounted + count ≤ n) :
    let s' := (List.range count).foldl (fun s' (j : ℕ) =>
      s'.publish publishSync make (s.run.accounted + j) (attempt j)) s
    Filled n s' ∧ s'.run.accounted = s.run.accounted + count := by
  induction count with
  | zero => exact ⟨h, (add_zero _).symm⟩
  | succ count ih =>
    obtain ⟨hfilled, haccounted⟩ := ih (by push_cast at hn; omega)
    simp only [List.range_succ, List.foldl_append, List.foldl_cons, List.foldl_nil]
    have hindex : s.run.accounted + count < n := by
      push_cast at hn
      omega
    rw [← haccounted] at hindex ⊢
    refine ⟨hfilled.published hm hindex (hclock count), ?_⟩
    rw [Sending.publish, accounted_publishSync, haccounted]
    push_cast
    ring

/-- **A tick keeps the table**, when the table reaches as far as what is owed. -/
theorem Filled.tick {n : ℕ} {s : Sending} (hm : IsFixedMaker make) (h : Filled n s) (o : Offer)
    {t : Tick} (hclock : ∀ j, 0 ≤ (t.attempt j).clock)
    (hn : max s.run.accounted (o.total t.now) ≤ n) :
    Filled n (s.tick publishSync make o t) := by
  rcases hr : owedNow o t.now s.run (maxDue o) with ⟨run, due⟩
  obtain ⟨-, hsent, hrejected, -, hskipped, haccounted⟩ := owedNow_spec o t.now hr
  rw [Sending.tick, hr]
  simp only [Run.accounted] at hn
  have hroom : run.accounted + due.toNat ≤ n := by
    unfold Run.accounted
    omega
  exact ((h.skip hsent hrejected hskipped).foldl hm hclock hroom).1

theorem Filled.loop {n : ℕ} (hm : IsFixedMaker make) (o : Offer) (hn : o.total o.tEnd ≤ n)
    {ticks : List Tick} (hclock : ∀ t ∈ ticks, ∀ j, 0 ≤ (t.attempt j).clock) {s : Sending}
    (h : Filled n s) (hs : s.run.accounted ≤ max 0 (o.total o.tEnd)) (next : ℤ) :
    Filled n (sendLoop publishSync make o ticks s next).1 ∧
      (sendLoop publishSync make o ticks s next).1.run.accounted ≤ max 0 (o.total o.tEnd) := by
  induction ticks generalizing s next with
  | nil => exact ⟨h, hs⟩
  | cons t ticks ih =>
    unfold sendLoop
    split
    · exact ⟨h, hs⟩
    · next hnow =>
      have hmono := o.total_mono (show t.now ≤ o.tEnd by omega)
      apply ih (fun t' ht' => hclock t' (by simp [ht']))
      · exact h.tick hm o (hclock t (by simp)) (by omega)
      · rw [Sending.tick_run hm, tick_accounted countsOnce_publishSync]
        omega

/-! ## What the library accepts -/

/-- The library accepts every publish that the loop makes.  When `counted` messages are
accounted for before a reading, its tick publishes what is owed beyond them, and at most
`max_due`. -/
def AcceptsAll (o : Offer) : ℤ → List Tick → Prop
  | _, [] => True
  | counted, t :: ticks =>
    if o.tEnd ≤ t.now then True
    else
      (∀ j : ℕ, (j : ℤ) < min (maxDue o) (o.total t.now - counted) →
        (t.attempt j).accepted = true) ∧
      AcceptsAll o (max counted (o.total t.now)) ticks

theorem Sending.tick_accepted (hm : IsFixedMaker make) (o : Offer) (t : Tick) (s : Sending) :
    (∀ c ∈ (s.tick publish make o t).calls, c.accepted = true) ↔
      (∀ c ∈ s.calls, c.accepted = true) ∧
        ∀ j : ℕ, (j : ℤ) < min (maxDue o) (o.total t.now - s.run.accounted) →
          (t.attempt j).accepted = true := by
  rcases hr : owedNow o t.now s.run (maxDue o) with ⟨run, due⟩
  obtain ⟨rfl, -⟩ : due = min (maxDue o) (o.total t.now - s.run.accounted) ∧ _ :=
    owedNow_spec o t.now hr
  have hcalls := (@Sending.foldl_publish publish make hm t.attempt
    (run.sent + run.rejected + run.skipped)
    (min (maxDue o) (o.total t.now - s.run.accounted)).toNat { s with run }).2.2
  have hforall : ∀ calls : List Publish, (∀ c ∈ calls, c.accepted = true) ↔
      ∀ e ∈ calls.map (fun c => (c.index, c.accepted)), e.2 = true := by simp
  rw [Sending.tick, hr, hforall, hforall]
  simp only at hcalls
  rw [hcalls]
  simp only [List.forall_mem_append, List.forall_mem_map, List.mem_range, Int.lt_toNat]

/-- The calls of a run are all accepted when the library accepts all that its ticks make. -/
theorem sendLoop_accepted (hm : IsFixedMaker make) (o : Offer) (ticks : List Tick) (s : Sending)
    (next : ℤ) :
    (∀ c ∈ (sendLoop publishSync make o ticks s next).1.calls, c.accepted = true) ↔
      (∀ c ∈ s.calls, c.accepted = true) ∧ AcceptsAll o s.run.accounted ticks := by
  induction ticks generalizing s next with
  | nil => simp [sendLoop, AcceptsAll]
  | cons t ticks ih =>
    rw [sendLoop, AcceptsAll]
    split
    · simp
    · rw [ih, Sending.tick_accepted hm, Sending.tick_run hm, tick_accounted countsOnce_publishSync,
        and_assoc]

/-- **The table records the publishes the library accepted**: exactly these have a time, so
that over the whole offer they yield the lags, and what was refused or skipped counts as
unsent. -/
structure RecordsAccepted (o : Offer) (s : Sending) : Prop where
  table : ∀ i : ℕ, s.table.sends.getD i unsent ≠ unsent ↔
    ∃ c ∈ s.calls, c.index = i ∧ c.accepted = true
  lags : ((windowLags o o.tStart s.table.sends).1.length : ℤ) = s.run.sent
  unsent : s.run.rejected + s.run.skipped ≤ (windowLags o o.tStart s.table.sends).2

/-- A message that was refused has a time in the table all the same. -/
theorem Filled.accepted_of_recorded {n : ℕ} {s : Sending} (h : Filled n s)
    (hn : s.run.accounted ≤ n)
    (htable : ∀ i : ℕ, s.table.sends.getD i Drive.unsent ≠ Drive.unsent ↔
      ∃ c ∈ s.calls, c.index = i ∧ c.accepted = true) :
    ∀ c ∈ s.calls, c.accepted = true := by
  intro c hc
  have hwithin := h.within c hc
  obtain ⟨i, hi⟩ := Int.eq_ofNat_of_zero_le hwithin.1
  obtain ⟨d, hd, hindex, haccepted⟩ :=
    (htable i).1 ((h.filled i (by omega)).2 ⟨c, hc, hi⟩)
  have hnodup : (s.calls.map Publish.index).Nodup :=
    (List.pairwise_map.2 h.ascending).imp fun hlt => hlt.ne
  have hsame : c = d := List.inj_on_of_nodup_map hnodup hc hd (hi.trans hindex.symm)
  rwa [hsame]

/-- Over the whole offer, every message made yields a lag. -/
theorem Filled.length_lags {n : ℕ} {s : Sending} (h : Filled n s) {o : Offer}
    (hlong : LongEnough o o.tStart s.table.sends) (hs : s.run.accounted ≤ o.total o.tEnd) :
    (windowLags o o.tStart s.table.sends).1.length = s.calls.length := by
  obtain ⟨lo, hi, hbounds, -, hhi, hlo, hend⟩ := hlong.bounds
  rw [o.total_start] at hlo
  have hlo0 : lo = 0 := by omega
  subst hlo0
  have hnodup : (s.calls.map fun c => c.index.toNat).Nodup := by
    apply List.pairwise_map.2
    apply h.ascending.imp_of_mem
    intro a b ha hb hlt
    have := (h.within a ha).1
    omega
  have hperm : ((List.range hi).filter fun i => (lagOf o s.table.sends i).isSome).Perm
      (s.calls.map fun c => c.index.toNat) := by
    rw [List.perm_ext_iff_of_nodup (List.nodup_range.filter _) hnodup]
    intro i
    have hsome : (lagOf o s.table.sends i).isSome = true ↔
        s.table.sends.getD i unsent ≠ unsent := by
      unfold lagOf
      split <;> simp_all
    simp only [List.mem_filter, List.mem_range, hsome, List.mem_map]
    constructor
    · rintro ⟨hlt, hsent⟩
      obtain ⟨c, hc, hindex⟩ := (h.filled i (by rw [← h.length]; omega)).1 hsent
      exact ⟨c, hc, by omega⟩
    · rintro ⟨c, hc, rfl⟩
      have hwithin := h.within c hc
      refine ⟨by omega, (h.filled _ (by rw [← h.length]; omega)).2 ⟨c, hc, by omega⟩⟩
  rw [(windowLags_eq hlong).1, List.length_filterMap_eq_countP, examined, hbounds]
  simp only [Int.toNat_natCast, Nat.sub_zero, ← List.range_eq_range']
  rw [List.countP_eq_length_filter, hperm.length_eq, List.length_map]

/-- Of a filled table: it records what was accepted exactly when everything was. -/
theorem Filled.records_iff {n : ℕ} {s : Sending} (h : Filled n s) {o : Offer}
    (hstart : o.tStart ≤ o.tEnd) (hn : o.total o.tEnd ≤ n)
    (hs : s.run.accounted ≤ max 0 (o.total o.tEnd)) :
    RecordsAccepted o s ↔ ∀ c ∈ s.calls, c.accepted = true := by
  have htotal := o.total_nonneg hstart
  rw [max_eq_right htotal] at hs
  have hlong : LongEnough o o.tStart s.table.sends := ⟨le_rfl, hstart, by rw [h.length]; exact hn⟩
  constructor
  · intro hrec
    exact h.accepted_of_recorded (hs.trans hn) hrec.table
  · intro hall
    have hsent : s.run.sent = s.calls.length := by
      rw [h.sent, List.countP_eq_length.2 hall]
    have hlags := h.length_lags hlong hs
    refine ⟨?_, by rw [hlags, hsent], ?_⟩
    · intro i
      by_cases hi : i < n
      · rw [h.filled i hi]
        exact ⟨fun ⟨c, hc, hindex⟩ => ⟨c, hc, hindex, hall c hc⟩,
          fun ⟨c, hc, hindex, _⟩ => ⟨c, hc, hindex⟩⟩
      · -- behind the table there is nothing, and nothing was made
        refine iff_of_false (not_not.2 ?_) ?_
        · exact List.getD_eq_default _ _ (by rw [h.length]; omega)
        · rintro ⟨c, hc, hindex, -⟩
          have := h.within c hc
          omega
    · obtain ⟨lo, hi, hbounds, hle, -, hlo, hend⟩ := hlong.bounds
      have hsnd : (windowLags o o.tStart s.table.sends).2
          = (hi : ℤ) - lo - (windowLags o o.tStart s.table.sends).1.length := by
        rw [windowLags, hbounds]
      rw [o.total_start] at hlo
      rw [hsnd, hlags, hlo, hend]
      rw [Run.accounted] at hs
      omega

/-- **The send times record what the library accepted exactly when it accepts every
publish that the loop makes.** -/
theorem sends_recorded_iff (o : Offer) (hstart : o.tStart ≤ o.tEnd) (make : Maker)
    (hm : IsFixedMaker make) (sendCapacity : ℕ)
    (hcapacity : o.rate * (o.tEnd - o.tStart) / nsPerS ≤ sendCapacity) (ticks : List Tick)
    (hclock : ∀ t ∈ ticks, ∀ j, 0 ≤ (t.attempt j).clock) :
    (RecordsAccepted o (sendFixedSync make sendCapacity o ticks) ↔ AcceptsAll o 0 ticks) ∧
      (RecordsAccepted o (sendFixedNowait make sendCapacity o ticks) ↔ AcceptsAll o 0 ticks) := by
  have hnowait : sendFixedNowait make sendCapacity o ticks
      = sendFixedSync make sendCapacity o ticks := by
    rw [sendFixedNowait, sendFixedSync, publishNowait_eq]
  obtain ⟨hfilled, hs⟩ := (filled_init sendCapacity).loop hm o hcapacity hclock
    (le_max_left _ _) o.tStart
  have hiff : RecordsAccepted o (sendFixedSync make sendCapacity o ticks) ↔
      AcceptsAll o 0 ticks := by
    rw [sendFixedSync, hfilled.records_iff hstart hcapacity hs, sendLoop_accepted hm]
    exact and_iff_right fun c hc => absurd hc List.not_mem_nil
  exact ⟨hiff, hnowait ▸ hiff⟩

/-- Three messages of 16 bytes, all accepted. -/
theorem sends_recorded_iff_example :
    ∃ make, fixedPayloadMaker 16 = .ok make ∧
      RecordsAccepted ⟨3000, 0, 2000000, by decide⟩
        (sendFixedSync make 8 ⟨3000, 0, 2000000, by decide⟩
          [⟨1000000, fun _ => ⟨1000005, true⟩⟩, ⟨2000000, fun _ => ⟨2000000, false⟩⟩]) := by
  refine ⟨_, rfl, ?_⟩
  apply (sends_recorded_iff ⟨3000, 0, 2000000, by decide⟩ (by decide) _ (.inl ⟨16, rfl⟩) 8
    (by decide) _ (by simp)).1.2
  exact ⟨fun _ _ => rfl, trivial⟩

/-- The library refuses the second of three messages.  Its time stays in the table, so that
it yields a lag, and what counts as unsent are the messages due after the tick. -/
theorem sends_recorded_counterexample :
    ∃ make, fixedPayloadMaker 16 = .ok make ∧
      (sendFixedSync make 8 ⟨3000, 0, 2000000, by decide⟩
        [⟨1000000, fun j => ⟨1000005, j ≠ 1⟩⟩, ⟨2000000, fun _ => ⟨2000000, true⟩⟩]).table.sends
          = [1000005, 1000005, 1000005, -1, -1, -1, -1, -1] ∧
      ¬ RecordsAccepted ⟨3000, 0, 2000000, by decide⟩
        (sendFixedSync make 8 ⟨3000, 0, 2000000, by decide⟩
          [⟨1000000, fun j => ⟨1000005, j ≠ 1⟩⟩, ⟨2000000, fun _ => ⟨2000000, true⟩⟩]) ∧
      ¬ RecordsAccepted ⟨3000, 0, 2000000, by decide⟩
        (sendFixedNowait make 8 ⟨3000, 0, 2000000, by decide⟩
          [⟨1000000, fun j => ⟨1000005, j ≠ 1⟩⟩, ⟨2000000, fun _ => ⟨2000000, true⟩⟩]) := by
  refine ⟨_, rfl, by decide, ?_, ?_⟩
  · intro h
    have hlags := h.lags
    revert hlags
    decide
  · intro h
    have hlags := h.lags
    revert hlags
    decide

end Drive
