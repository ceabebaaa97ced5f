import MqttBench.Drive.Awaited

/-!
# What a fixed offer has accounted for in the end

The three loops for a fixed offer, `pub_fixed_sync`, `pub_fixed_nowait` and the pacer of
`pub_fixed_awaited`, count what is owed when they read the clock, and leave at the first
reading at or after `t_end`.

* `tick_accounted` — after a tick everything owed at its reading is accounted for.
* `seen_fixedLoop`, `seen_awaited` — so the loops have accounted for what was owed at their
  last reading before `t_end`.
* `fixed_accounts_iff` — **every message due before `t_end` is handed out or counted as
  skipped exactly when none falls due between that reading and `t_end`.**
-/

namespace Drive

open Pacing Runs

/-- `run.sent + run.rejected + run.skipped`. -/
def Run.accounted (run : Run) : ℤ := run.sent + run.rejected + run.skipped

/-- Each message due before `t_end` was handed to the library or counted as skipped. -/
def AccountsForAll (o : Offer) (run : Run) : Prop :=
  run.accounted = {i : ℕ | dueNs o i < o.tEnd}.ncard

/-! ## The loops with ticks -/

variable {publish : Run → ℤ → Attempt → Run}

/-- **A tick accounts for what is owed**, whatever the library does. -/
theorem tick_accounted (hp : CountsOnce publish) (o : Offer) (t : Tick) (run : Run) :
    (tick publish o t run).accounted = max run.accounted (o.total t.now) := by
  rcases hr : owedNow o t.now run (maxDue o) with ⟨run₁, due⟩
  obtain ⟨hcount, hskipped, -⟩ :=
    hp.foldl t.attempt (run₁.sent + run₁.rejected + run₁.skipped) due.toNat run₁
  obtain ⟨-, -, -, -, -, haccounted⟩ := owedNow_spec o t.now hr
  rw [tick, hr]
  simp only [Run.accounted]
  rw [hskipped, hcount]
  omega

/-- The reading at or after `t_end` ends the loop and changes nothing. -/
theorem fixedLoop_stop (o : Offer) {ticks : List Tick} {stop : Tick}
    (hticks : ∀ t ∈ ticks, t.now < o.tEnd) (hstop : o.tEnd ≤ stop.now) (run : Run) (next : ℤ) :
    fixedLoop publish o (ticks ++ [stop]) run next = fixedLoop publish o ticks run next := by
  induction ticks generalizing run next with
  | nil => exact if_pos hstop
  | cons t ticks ih =>
    have ht := hticks t (by simp)
    rw [List.cons_append, fixedLoop, fixedLoop, if_neg (not_le.2 ht), if_neg (not_le.2 ht)]
    exact ih (fun t' ht' => hticks t' (by simp [ht'])) _ _

/-- **The loop accounts for what was owed when it looked**, by induction on its ticks. -/
theorem seen_fixedLoop (hp : CountsOnce publish) (o : Offer) (ticks : List Tick)
    (hticks : ∀ t ∈ ticks, t.now < o.tEnd) :
    Seen o.total (ticks.map Tick.now) (fixedLoop publish o ticks Run.init o.tStart).1.accounted := by
  induction ticks using List.reverseRecOn with
  | nil => exact seen_nil
  | append_singleton ticks t ih =>
    rw [fixedLoop_append o hticks, tick_accounted hp, List.map_append]
    exact (ih fun t' ht' => hticks t' (by simp [ht'])).look t.now

theorem fixedLoop_accounts_iff (hp : CountsOnce publish) (o : Offer) {ticks : List Tick}
    {stop : Tick} (hticks : ∀ t ∈ ticks, t.now < o.tEnd) (hstop : o.tEnd ≤ stop.now) :
    AccountsForAll o (fixedLoop publish o (ticks ++ [stop]) Run.init o.tStart).1 ↔
      ∀ i : ℕ, dueNs o i < o.tEnd → ∃ t ∈ ticks, dueNs o i ≤ t.now := by
  rw [fixedLoop_stop o hticks hstop, AccountsForAll,
    (seen_fixedLoop hp o ticks hticks).complete_iff (dueNs_le_iff o) (by simpa using hticks)]
  simp

/-! ## The pacer with credits -/

variable {n : ℕ}

/-- `pub_fixed_awaited` never counts a publish as rejected. -/
theorem rejected_awaited (o : Offer) :
    Invariant (AwaitedInit o) (AwaitedStep o) fun s : Awaited n => s.run.rejected = 0 where
  init h := by
    rw [h]
    rfl
  step h hs := by
    cases hs with
    | tick _ _ _ =>
      unfold Awaited.tick
      simp only
      split <;> split <;> exact h
    | finish _ _ _ => exact h
    | head _ =>
      unfold Awaited.head
      split
      · split <;> exact h
      · exact h
    | @complete w ok _ _ =>
      cases ok
      · exact h
      · exact h

/-- The pacer reads the clock before `t_end` as long as it hands out credits. -/
theorem last_awaited (o : Offer) :
    Invariant (AwaitedInit o) (AwaitedStep o)
      fun s : Awaited n => ∀ now ∈ s.last.toList, now < o.tEnd where
  init h := by
    rw [h]
    intro now hnow
    exact absurd hnow List.not_mem_nil
  step h hs := by
    cases hs with
    | tick _ _ hnow =>
      rw [Awaited.tick_last]
      simpa using hnow
    | finish _ _ _ => exact h
    | head _ =>
      unfold Awaited.head
      split
      · split <;> exact h
      · exact h
    | complete _ => exact h

/-- **The pacer accounts for what was owed when it looked last.** -/
theorem seen_awaited {o : Offer} {s : Awaited n}
    (h : Reachable (AwaitedInit o) (AwaitedStep o) s) (hdone : s.gateDone = true) :
    Seen o.total s.last.toList s.run.accounted := by
  have hinv := h.holds (awaitedInv o)
  have hrejected := h.holds (rejected_awaited o)
  have hsum := hinv.sum
  rw [hinv.swept hdone] at hsum
  simp only [Spans.elems, List.flatMap_nil, List.length_nil, Nat.cast_zero, add_zero] at hsum
  have htotal : s.run.accounted = s.total o := by
    rw [Run.accounted, hrejected, ← hsum]
    ring
  rw [htotal, Awaited.total]
  cases hlast : s.last with
  | none => exact seen_nil
  | some now => exact seen_nil.look now

/-! ## The end of the offer -/

/-- **Every message due before `t_end` is accounted for exactly when none falls due after
the last reading before `t_end`**: in the two loops with ticks, whatever they read and
whatever the library does, and in every run of the pacer and its workers. -/
theorem fixed_accounts_iff (o : Offer) :
    (∀ ticks stop, (∀ t ∈ ticks, t.now < o.tEnd) → o.tEnd ≤ stop.now →
      (AccountsForAll o (pubFixedSync o (ticks ++ [stop])) ↔
        ∀ i : ℕ, dueNs o i < o.tEnd → ∃ t ∈ ticks, dueNs o i ≤ t.now) ∧
      (AccountsForAll o (pubFixedNowait o (ticks ++ [stop])) ↔
        ∀ i : ℕ, dueNs o i < o.tEnd → ∃ t ∈ ticks, dueNs o i ≤ t.now)) ∧
    ∀ (n : ℕ) (s : Awaited n), Reachable (AwaitedInit o) (AwaitedStep o) s → s.gateDone = true →
      (AccountsForAll o s.run ↔
        ∀ i : ℕ, dueNs o i < o.tEnd → ∃ now ∈ s.last, dueNs o i ≤ now) := by
  refine ⟨?_, ?_⟩
  · intro ticks stop hticks hstop
    exact ⟨fixedLoop_accounts_iff countsOnce_publishSync o hticks hstop,
      fixedLoop_accounts_iff countsOnce_publishNowait o hticks hstop⟩
  · intro n s h hdone
    rw [AccountsForAll, (seen_awaited h hdone).complete_iff (dueNs_le_iff o)
      (h.holds (last_awaited o))]
    simp only [Option.mem_toList]
    rfl

/-- A reading in the last nanosecond before `t_end` leaves nothing out. -/
theorem fixed_accounts_iff_example :
    AccountsForAll offer3000 (pubFixedSync offer3000
      ([⟨999999999, fun _ => ⟨999999999, false⟩⟩] ++ [⟨1000000001, fun _ => ⟨0, true⟩⟩])) ∧
    ∃ s : Awaited 1, s.gateDone = true ∧ AccountsForAll offer3000 s.run := by
  refine ⟨?_, (((Awaited.init 1 offer3000).tick offer3000 999999999).finish), rfl, ?_⟩
  · apply ((fixed_accounts_iff offer3000).1 _ _ (by simp [offer3000]) (by decide)).1.2
    intro i hi
    exact ⟨_, List.mem_singleton_self _, Int.lt_add_one_iff.1 hi⟩
  · have h0 : Reachable (AwaitedInit offer3000) (AwaitedStep offer3000)
        (Awaited.init 1 offer3000) := .start rfl
    have h1 := h0.next (a := .tick 999999999) (.tick rfl (by simp [Awaited.init]) (by decide))
    have h2 := h1.next (a := .finish 1000000001) (.finish rfl (by decide) (by decide))
    apply ((fixed_accounts_iff offer3000).2 1 _ h2 rfl).2
    intro i hi
    exact ⟨999999999, rfl, Int.lt_add_one_iff.1 hi⟩

/-- 2999 messages are due before 1 s.  A client that blocks from the first tick on until
after `t_end` leaves all but three of them uncounted, in each of the three shapes. -/
theorem fixed_accounts_counterexample :
    ¬ AccountsForAll offer3000 (pubFixedSync offer3000
      [⟨1000000, fun _ => ⟨1000005, true⟩⟩, ⟨1000000001, fun _ => ⟨0, true⟩⟩]) ∧
    ¬ AccountsForAll offer3000 (pubFixedNowait offer3000
      [⟨1000000, fun _ => ⟨1000005, true⟩⟩, ⟨1000000001, fun _ => ⟨0, true⟩⟩]) ∧
    ∃ s : Awaited 1, Reachable (AwaitedInit offer3000) (AwaitedStep offer3000) s ∧
      s.gateDone = true ∧ (∀ w, s.workers w = .returned) ∧ ¬ AccountsForAll offer3000 s.run := by
  have hdue : ({i : ℕ | dueNs offer3000 i < offer3000.tEnd}.ncard : ℤ) = 2999 :=
    ncard_due_lt (dueNs_le_iff offer3000) 1000000000
  have h0 : Reachable (AwaitedInit offer3000) (AwaitedStep offer3000) (Awaited.init 1 offer3000) :=
    .start rfl
  have h1 := h0.next (a := .head 0 5) (.head (.inl rfl))
  have h2 := h1.next (a := .tick 1000000) (.tick rfl (by decide) (by decide))
  have h3 := h2.next (a := .head 0 1000003) (.head (.inr ⟨0, by decide, by decide⟩))
  have h4 := h3.next (a := .complete 0 true) (.complete (show _ = Worker.publishing 0 by decide))
  have h5 := h4.next (a := .finish 1000000000) (.finish rfl (by decide) (by decide))
  have h6 := h5.next (a := .head 0 1000000002) (.head (.inl (by decide)))
  refine ⟨?_, ?_, awaitedExample, h6, rfl, by decide, ?_⟩
  · rw [AccountsForAll, hdue]
    decide
  · rw [AccountsForAll, hdue]
    decide
  · rw [AccountsForAll, hdue]
    decide

end Drive
