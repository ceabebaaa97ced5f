import MqttBench.Adapters.GmqttAsync
import MqttBench.Drive.Offer
import MqttBench.Lib.Runs
import MqttBench.Lib.Traces

/-!
# Publishing without waiting, through gmqtt

The counters of `bench/drive.py` under calls of `publish_nowait` and acknowledgements in
any order, and the two loops that make the calls, `pub_capacity_nowait` and
`pub_fixed_nowait`.

* `attempt`, `acknowledge` — one publish of the loops, one acknowledgement.
* `Accounted` — what the counters and the calls of `on_publish` should add up to.
* `exec_accounted_iff` — **they do exactly when no call fails and no acknowledgement is
  for an id that is not registered.**
* `nowait_accounted_iff` — the same in every reachable state of the two loops.
-/

namespace Drive

open Adapters Runs Traces

/-! ## The counters -/

/-- `_is_failure`. -/
def isFailure (reasonCode : ℕ) : Bool := reasonCode ≠ 0 && 128 ≤ reasonCode

/-- `completion_callback(run)`. -/
def completionCallback (run : Run) (reasonCode : ℕ) : Run :=
  if reasonCode ≠ 0 ∧ isFailure reasonCode then { run with failed := run.failed + 1 }
  else { run with done := run.done + 1 }

/-- A call of `on_publish` with the publish call that it is about, if there is one. -/
structure Firing where
  call : Option ℕ
  mid : ℕ
  reasonCode : ℕ

/-- What can happen to the counters. -/
inductive Event
  /-- A loop publishes a message. -/
  | attempt (c : Call)
  /-- The library handles an acknowledgement. -/
  | acknowledge (mid : ℕ)
  /-- `_owed` gives messages up. -/
  | skip (count : ℤ)

/-- The adapter, the counters, and records for the statements: what each call returned,
which call each packet id on the wire is of, the calls of `on_publish`, the calls whose
acknowledgement was processed, and the events so far. -/
structure Nowait where
  adapter : GmqttAsync
  run : Run
  calls : List (Option ℕ)
  owner : ℕ → Option ℕ
  fires : List Firing
  acked : List ℕ
  events : List Event

def Nowait.init : Nowait where
  adapter := GmqttAsync.init
  run := Run.init
  calls := []
  owner := fun _ => none
  fires := []
  acked := []
  events := []

/-- `run.sent - run.done - run.failed`. -/
def Run.inFlight (run : Run) : ℤ := run.sent - run.done - run.failed

/-- One publish of the loops: counted as sent before the call, and as rejected instead
when the call returns nothing.  A call that is not registered is acknowledged at once. -/
def attempt (s : Nowait) (c : Call) : Nowait :=
  let index := s.calls.length
  let (adapter, fired, mid) := Adapters.publishNowait s.adapter c
  let run := { s.run with sent := s.run.sent + 1 }
  let run := match fired with
    | some f => completionCallback run f.reasonCode
    | none => run
  { adapter
    run := if mid.isNone then { run with sent := run.sent - 1, rejected := run.rejected + 1 }
      else run
    calls := s.calls ++ [mid]
    owner := match c.realMid with
      | some realMid => Function.update s.owner realMid (some index)
      | none => s.owner
    fires := s.fires ++ (fired.map fun f => ⟨some index, f.mid, f.reasonCode⟩).toList
    acked := if c.realMid.isNone ∧ mid.isSome then s.acked ++ [index] else s.acked
    events := s.events ++ [.attempt c] }

/-- The hook: the id is free again, and `on_publish` is called. -/
def acknowledge (s : Nowait) (mid : ℕ) : Nowait :=
  let (adapter, fired) := removeAndAck s.adapter mid
  { s with
    adapter
    run := completionCallback s.run fired.reasonCode
    owner := Function.update s.owner mid none
    fires := s.fires ++ [⟨s.owner mid, fired.mid, fired.reasonCode⟩]
    acked := s.acked ++ (s.owner mid).toList
    events := s.events ++ [.acknowledge mid] }

def skip (s : Nowait) (count : ℤ) : Nowait :=
  { s with
    run := { s.run with skipped := s.run.skipped + count }
    events := s.events ++ [.skip count] }

/-- One event. -/
def Nowait.step (s : Nowait) : Event → Nowait
  | .attempt c => attempt s c
  | .acknowledge mid => acknowledge s mid
  | .skip count => skip s count

/-- The state after some events. -/
def exec (events : List Event) : Nowait := events.foldl Nowait.step Nowait.init

/-! ## What a step does -/

/-- A call that fails is counted as rejected and as failed; the packet id is its own when
the message is on the wire. -/
theorem attempt_of_fails {c : Call} (h : c.Fails) (s : Nowait) :
    (attempt s c).calls = s.calls ++ [none] ∧
      (attempt s c).fires = s.fires ++
        [⟨some s.calls.length, allocMid s.adapter.nextMid, 128⟩] ∧
      (attempt s c).run = { s.run with
        failed := s.run.failed + 1, rejected := s.run.rejected + 1 } ∧
      ∀ p, (attempt s c).owner p = some s.calls.length ∨
        (attempt s c).owner p = s.owner p ∧
          (attempt s c).adapter.realToSynth p = s.adapter.realToSynth p := by
  rcases publishNowait_cases s.adapter c with ⟨-, h2, hreal⟩ | ⟨hn, -⟩ | ⟨hn, -⟩
  · have hp : Adapters.publishNowait s.adapter c =
      ((Adapters.publishNowait s.adapter c).1, some ⟨allocMid s.adapter.nextMid, 128⟩, none) :=
      Prod.ext rfl h2
    rw [attempt, hp]
    refine ⟨rfl, rfl, by simp [completionCallback, isFailure], ?_⟩
    intro p
    simp only
    by_cases hc : c.realMid = some p
    · rw [hc]
      exact .inl (Function.update_self _ _ _)
    · refine .inr ⟨?_, (hreal p).trans (if_neg hc)⟩
      cases hr : c.realMid with
      | none => rfl
      | some q => exact Function.update_of_ne (fun hpq => hc (by rw [hr, hpq])) _ _
  · exact absurd h hn
  · exact absurd h hn

/-- A call that completes at once. -/
theorem attempt_of_inline {c : Call} (h : ¬ c.Fails) (hc : c.realMid = none) (s : Nowait) :
    ∃ adapter : GmqttAsync, adapter.realToSynth = s.adapter.realToSynth ∧ attempt s c =
      { s with
        adapter
        run := { s.run with sent := s.run.sent + 1, done := s.run.done + 1 }
        calls := s.calls ++ [some (allocMid s.adapter.nextMid)]
        fires := s.fires ++ [⟨some s.calls.length, allocMid s.adapter.nextMid, 0⟩]
        acked := s.acked ++ [s.calls.length]
        events := s.events ++ [.attempt c] } := by
  rcases publishNowait_cases s.adapter c with ⟨hf, -⟩ | ⟨-, -, h2, h1⟩ | ⟨-, p, hp, -⟩
  · exact absurd hf h
  · have hp : Adapters.publishNowait s.adapter c = ((Adapters.publishNowait s.adapter c).1,
        some ⟨allocMid s.adapter.nextMid, 0⟩, some (allocMid s.adapter.nextMid)) :=
      Prod.ext rfl h2
    refine ⟨_, h1, ?_⟩
    rw [attempt, hp, hc]
    rfl
  · rw [hc] at hp
    cases hp

/-- A call that registers a packet id. -/
theorem attempt_of_registers {c : Call} {realMid : ℕ} (h : ¬ c.Fails)
    (hc : c.realMid = some realMid) (s : Nowait) :
    ∃ adapter : GmqttAsync, adapter.realToSynth =
        Function.update s.adapter.realToSynth realMid (some (allocMid s.adapter.nextMid)) ∧
      attempt s c =
      { s with
        adapter
        run := { s.run with sent := s.run.sent + 1 }
        calls := s.calls ++ [some (allocMid s.adapter.nextMid)]
        owner := Function.update s.owner realMid (some s.calls.length)
        events := s.events ++ [.attempt c] } := by
  rcases publishNowait_cases s.adapter c with ⟨hf, -⟩ | ⟨-, hp, -⟩ | ⟨-, p, hp, h2, h1⟩
  · exact absurd hf h
  · rw [hc] at hp
    cases hp
  · obtain rfl : realMid = p := Option.some.inj (hc.symm.trans hp)
    have hp : Adapters.publishNowait s.adapter c = ((Adapters.publishNowait s.adapter c).1,
        none, some (allocMid s.adapter.nextMid)) :=
      Prod.ext rfl h2
    refine ⟨_, h1, ?_⟩
    rw [attempt, hp, hc]
    simp

theorem acknowledge_of_registered {s : Nowait} {realMid mid index : ℕ}
    (h : s.adapter.realToSynth realMid = some mid) (hi : s.owner realMid = some index) :
    acknowledge s realMid =
      { s with
        adapter := { s.adapter with
          realToSynth := Function.update s.adapter.realToSynth realMid none }
        run := { s.run with done := s.run.done + 1 }
        owner := Function.update s.owner realMid none
        fires := s.fires ++ [⟨some index, mid, 0⟩]
        acked := s.acked ++ [index]
        events := s.events ++ [.acknowledge realMid] } := by
  simp [acknowledge, removeAndAck, h, hi, completionCallback]

/-! ## What should hold -/

/-- No call fails, and only registered ids are acknowledged. -/
def Clean (s : Nowait) : Event → Prop
  | .attempt c => ¬ c.Fails
  | .acknowledge realMid => s.adapter.realToSynth realMid ≠ none
  | .skip _ => True

instance (s : Nowait) (e : Event) : Decidable (Clean s e) :=
  match e with
  | .attempt c => inferInstanceAs (Decidable (¬ c.Fails))
  | .acknowledge realMid => inferInstanceAs (Decidable (s.adapter.realToSynth realMid ≠ none))
  | .skip _ => inferInstanceAs (Decidable True)

/-- A call that returned a `mid`. -/
def Nowait.Accepted (s : Nowait) (index : ℕ) : Prop := ∃ mid, s.calls[index]? = some (some mid)

/-- The accepted publishes whose acknowledgement was not processed yet. -/
noncomputable def Nowait.pending (s : Nowait) : Finset ℕ :=
  open Classical in
  (Finset.range s.calls.length).filter fun index => s.Accepted index ∧ index ∉ s.acked

/-- The calls of `on_publish` that are about one call of `publish_nowait`. -/
def Nowait.firings (s : Nowait) (index : ℕ) : ℕ :=
  (s.fires.map Firing.call).count (some index)

/-- What the counters and the calls of `on_publish` should add up to. -/
structure Accounted (s : Nowait) : Prop where
  /-- An accepted call completes once, when its acknowledgement was processed. -/
  once : ∀ index, s.Accepted index → s.firings index = if index ∈ s.acked then 1 else 0
  /-- A call that returned nothing never completes. -/
  refused : ∀ index, s.calls[index]? = some none → s.firings index = 0
  /-- No packet id completes that no call registered. -/
  known : none ∉ s.fires.map Firing.call
  /-- A call completes under the `mid` it returned. -/
  labelled : ∀ f ∈ s.fires, ∀ index, f.call = some index → s.calls[index]? = some (some f.mid)
  /-- Each attempt is counted once, as sent or as rejected. -/
  counted : s.run.sent = s.calls.countP (·.isSome) ∧ s.run.rejected = s.calls.countP (·.isNone)
  bounded : s.run.done + s.run.failed ≤ s.run.sent
  inFlight : s.run.inFlight = s.pending.card

/-! ## Clean runs -/

/-- What holds between any two events while they are clean. -/
structure CleanInv (s : Nowait) : Prop where
  accepted : ∀ r ∈ s.calls, r ≠ none
  owned : ∀ p index, s.owner p = some index → index < s.calls.length ∧ index ∉ s.acked
  injective : ∀ p q index, s.owner p = some index → s.owner q = some index → p = q
  registered : ∀ p mid, s.adapter.realToSynth p = some mid →
    ∃ index, s.owner p = some index ∧ s.calls[index]? = some (some mid)
  completed : s.fires.map Firing.call = s.acked.map some
  labelled : ∀ f ∈ s.fires, ∀ index, f.call = some index → s.calls[index]? = some (some f.mid)
  nodup : s.acked.Nodup
  within : ∀ index ∈ s.acked, index < s.calls.length
  sent : s.run.sent = s.calls.length
  rejected : s.run.rejected = 0
  completions : s.run.done + s.run.failed = s.acked.length

theorem cleanInv_init : CleanInv Nowait.init where
  accepted _ h := absurd h List.not_mem_nil
  owned _ _ h := by cases h
  injective _ _ _ h := by cases h
  registered _ _ h := by cases h
  completed := rfl
  labelled _ h := absurd h List.not_mem_nil
  nodup := List.nodup_nil
  within _ h := absurd h List.not_mem_nil
  sent := rfl
  rejected := rfl
  completions := rfl

/-- What a call returned stays recorded. -/
theorem getElem?_append_of_some {α : Type*} {xs : List α} {i : ℕ} {x : α} (h : xs[i]? = some x)
    (ys : List α) : (xs ++ ys)[i]? = some x := by
  have hi : i < xs.length := (List.getElem?_eq_some_iff.1 h).1
  rw [List.getElem?_append_left hi, h]

/-- The next call's index has been seen nowhere. -/
theorem CleanInv.fresh {s : Nowait} (h : CleanInv s) :
    s.calls.length ∉ s.acked ∧ ∀ p, s.owner p ≠ some s.calls.length :=
  ⟨fun hm => absurd (h.within _ hm) (lt_irrefl _),
    fun p hp => absurd (h.owned p _ hp).1 (lt_irrefl _)⟩

/-- A call that completes inside keeps the accounts: its firing is its own. -/
theorem CleanInv.inline {s : Nowait} {c : Call} (h : CleanInv s) (hc : ¬ c.Fails)
    (hr : c.realMid = none) : CleanInv (Drive.attempt s c) := by
  obtain ⟨adapter, hreal, heq⟩ := attempt_of_inline hc hr s
  have hmore : ∀ mid : ℕ, s.calls.length < (s.calls ++ [some mid]).length := by simp
  have hfresh := h.fresh.1
  rw [heq]
  exact
    { accepted := by simpa [or_imp, forall_and] using h.accepted
      owned := by
        intro p index hp
        obtain ⟨hlt, hack⟩ := h.owned p index hp
        refine ⟨hlt.trans (hmore _), ?_⟩
        intro hm
        rcases List.mem_append.1 hm with hm | hm
        · exact hack hm
        · exact absurd (List.mem_singleton.1 hm) hlt.ne
      injective := h.injective
      registered := by
        intro p mid hp
        rw [hreal] at hp
        obtain ⟨index, hi, hcall⟩ := h.registered p mid hp
        exact ⟨index, hi, getElem?_append_of_some hcall _⟩
      completed := by simp [h.completed]
      labelled := by
        intro f hf index hi
        rcases List.mem_append.1 hf with hf | hf
        · exact getElem?_append_of_some (h.labelled f hf index hi) _
        · obtain rfl := List.mem_singleton.1 hf
          obtain rfl := Option.some.inj hi
          exact List.getElem?_concat_length
      nodup := h.nodup.append (List.nodup_singleton _) (by simpa using hfresh)
      within := by
        intro index hi
        rcases List.mem_append.1 hi with hi | hi
        · exact (h.within index hi).trans (hmore _)
        · rw [List.mem_singleton.1 hi]
          exact hmore _
      sent := by simp [h.sent]
      rejected := h.rejected
      completions := by
        have := h.completions
        simp only [List.length_append, List.length_singleton]
        push_cast
        omega }

/-- A call that registers a packet id keeps them: the id is from now on the new call's. -/
theorem CleanInv.register {s : Nowait} {c : Call} {p : ℕ} (h : CleanInv s) (hc : ¬ c.Fails)
    (hr : c.realMid = some p) : CleanInv (Drive.attempt s c) := by
  obtain ⟨adapter, hreal, heq⟩ := attempt_of_registers hc hr s
  have hmore : ∀ mid : ℕ, s.calls.length < (s.calls ++ [some mid]).length := by simp
  obtain ⟨hfresh, hother⟩ := h.fresh
  rw [heq]
  exact
    { accepted := by simpa [or_imp, forall_and] using h.accepted
      owned := by
        intro q index hq
        by_cases hqp : q = p
        · rw [hqp] at hq
          simp only [Function.update_self] at hq
          obtain rfl := Option.some.inj hq
          exact ⟨hmore _, hfresh⟩
        · simp only [Function.update_of_ne hqp] at hq
          obtain ⟨hlt, hack⟩ := h.owned q index hq
          exact ⟨hlt.trans (hmore _), hack⟩
      injective := by
        intro q r index hq hr'
        by_cases hqp : q = p <;> by_cases hrp : r = p
        · rw [hqp, hrp]
        · rw [hqp] at hq
          simp only [Function.update_self, Function.update_of_ne hrp] at hq hr'
          exact absurd (hr'.trans hq.symm) (hother r)
        · rw [hrp] at hr'
          simp only [Function.update_self, Function.update_of_ne hqp] at hq hr'
          exact absurd (hq.trans hr'.symm) (hother q)
        · simp only [Function.update_of_ne hqp, Function.update_of_ne hrp] at hq hr'
          exact h.injective q r index hq hr'
      registered := by
        intro q mid hq
        rw [hreal] at hq
        by_cases hqp : q = p
        · rw [hqp] at hq ⊢
          rw [Function.update_self] at hq
          refine ⟨s.calls.length, Function.update_self _ _ _, ?_⟩
          rw [← hq]
          exact List.getElem?_concat_length
        · rw [Function.update_of_ne hqp] at hq
          obtain ⟨index, hi, hcall⟩ := h.registered q mid hq
          exact ⟨index, (Function.update_of_ne hqp _ _).trans hi, getElem?_append_of_some hcall _⟩
      completed := h.completed
      labelled := by
        intro f hf index hi
        exact getElem?_append_of_some (h.labelled f hf index hi) _
      nodup := h.nodup
      within := by
        intro index hi
        exact (h.within index hi).trans (hmore _)
      sent := by simp [h.sent]
      rejected := h.rejected
      completions := h.completions }

theorem CleanInv.attempt {s : Nowait} {c : Call} (h : CleanInv s) (hc : ¬ c.Fails) :
    CleanInv (attempt s c) := by
  cases hr : c.realMid with
  | none => exact h.inline hc hr
  | some p => exact h.register hc hr

theorem CleanInv.acknowledge {s : Nowait} {p : ℕ} (h : CleanInv s)
    (hp : s.adapter.realToSynth p ≠ none) : CleanInv (acknowledge s p) := by
  obtain ⟨mid, hmid⟩ := Option.ne_none_iff_exists'.1 hp
  obtain ⟨index, hi, hcall⟩ := h.registered p mid hmid
  obtain ⟨hlt, hack⟩ := h.owned p index hi
  have hrest : ∀ {q j}, (Function.update s.owner p none) q = some j → q ≠ p ∧ s.owner q = some j := by
    intro q j hq
    by_cases hqp : q = p
    · rw [hqp, Function.update_self] at hq
      cases hq
    · exact ⟨hqp, (Function.update_of_ne hqp _ _).symm.trans hq⟩
  have hcompletions := h.completions
  rw [acknowledge_of_registered hmid hi]
  refine ⟨h.accepted, ?_, ?_, ?_, ?_, ?_, ?_, ?_, h.sent, h.rejected, ?_⟩
  · intro q j hq
    obtain ⟨hqp, hq⟩ := hrest hq
    obtain ⟨hlt', hack'⟩ := h.owned q j hq
    refine ⟨hlt', ?_⟩
    intro hm
    rcases List.mem_append.1 hm with hm | hm
    · exact hack' hm
    · rw [List.mem_singleton.1 hm] at hq
      exact hqp (h.injective q p index hq hi)
  · intro q r j hq hr
    exact h.injective q r j (hrest hq).2 (hrest hr).2
  · intro q mid' hq
    by_cases hqp : q = p
    · rw [hqp] at hq
      simp only [Function.update_self] at hq
      cases hq
    · simp only [Function.update_of_ne hqp] at hq ⊢
      exact h.registered q mid' hq
  · simp [h.completed]
  · intro f hf j hj
    rcases List.mem_append.1 hf with hf | hf
    · exact h.labelled f hf j hj
    · obtain rfl := List.mem_singleton.1 hf
      obtain rfl := Option.some.inj hj
      exact hcall
  · exact h.nodup.append (List.nodup_singleton _) (by simpa using hack)
  · intro j hj
    rcases List.mem_append.1 hj with hj | hj
    · exact h.within j hj
    · rw [List.mem_singleton.1 hj]
      exact hlt
  · simp only [List.length_append, List.length_singleton]
    push_cast
    omega

theorem CleanInv.skip {s : Nowait} (h : CleanInv s) (count : ℤ) : CleanInv (skip s count) :=
  { h with }

/-- **Every clean event keeps the invariant.** -/
theorem CleanInv.step {s : Nowait} (h : CleanInv s) (e : Event) (he : Clean s e) :
    CleanInv (s.step e) := by
  cases e with
  | attempt c => exact h.attempt he
  | acknowledge p => exact h.acknowledge he
  | skip count => exact h.skip count

theorem CleanInv.isSome {s : Nowait} (h : CleanInv s) : ∀ r ∈ s.calls, r.isSome = true :=
  fun r hr => Option.isSome_iff_ne_none.2 (h.accepted r hr)

theorem CleanInv.pending_card {s : Nowait} (h : CleanInv s) :
    (s.pending.card : ℤ) = s.calls.length - s.acked.length := by
  classical
  have hpending : s.pending = Finset.range s.calls.length \ s.acked.toFinset := by
    ext index
    simp only [Nowait.pending, Finset.mem_filter, Finset.mem_sdiff, List.mem_toFinset]
    refine and_congr_right fun hi => and_iff_right ?_
    have hlt := Finset.mem_range.1 hi
    obtain ⟨mid, hmid⟩ := Option.isSome_iff_exists.1 (h.isSome _ (List.getElem_mem hlt))
    exact ⟨mid, by rw [List.getElem?_eq_getElem hlt, hmid]⟩
  have hsub : s.acked.toFinset ⊆ Finset.range s.calls.length := fun index hi =>
    Finset.mem_range.2 (h.within index (List.mem_toFinset.1 hi))
  have hcard := Finset.card_sdiff_add_card_eq_card hsub
  rw [List.toFinset_card_of_nodup h.nodup, Finset.card_range] at hcard
  rw [hpending]
  omega

theorem CleanInv.accounted {s : Nowait} (h : CleanInv s) : Accounted s where
  once index _ := by
    rw [Nowait.firings, h.completed, List.count_map_of_injective _ _ (Option.some_injective _),
      List.Nodup.count h.nodup]
  refused index hi := absurd rfl (h.accepted none (List.mem_of_getElem? hi))
  known := by simp [h.completed]
  labelled := h.labelled
  counted := by
    refine ⟨?_, ?_⟩
    · rw [h.sent, List.countP_eq_length.2 h.isSome]
    · rw [h.rejected, List.countP_eq_zero.2 fun r hr => by
        rw [Option.isNone_iff_eq_none]
        exact h.accepted r hr]
      rfl
  bounded := by
    have hle : s.acked.length ≤ s.calls.length := by
      have := h.pending_card
      omega
    rw [h.completions, h.sent]
    exact_mod_cast hle
  inFlight := by
    have := h.completions
    rw [h.pending_card, Run.inFlight, h.sent]
    omega

/-! ## Events that are not clean -/

/-- `on_publish` was called for a call that returned nothing, or for no call. -/
def Spoiled (s : Nowait) : Prop :=
  none ∈ s.fires.map Firing.call ∨
    ∃ index, s.calls[index]? = some none ∧ some index ∈ s.fires.map Firing.call

theorem Spoiled.not_accounted {s : Nowait} (h : Spoiled s) : ¬ Accounted s := by
  intro ha
  rcases h with h | ⟨index, hi, hf⟩
  · exact ha.known h
  · exact absurd (ha.refused index hi) (List.count_pos_iff.2 hf).ne'

/-- The records of calls and of completions only grow. -/
theorem step_grows (s : Nowait) (e : Event) :
    (∃ calls, (s.step e).calls = s.calls ++ calls) ∧
      ∃ fires, (s.step e).fires = s.fires ++ fires := by
  cases e with
  | attempt c => exact ⟨⟨_, rfl⟩, _, rfl⟩
  | acknowledge p => exact ⟨⟨[], (List.append_nil _).symm⟩, _, rfl⟩
  | skip count => exact ⟨⟨[], (List.append_nil _).symm⟩, [], (List.append_nil _).symm⟩

theorem Spoiled.step {s : Nowait} (h : Spoiled s) (e : Event) : Spoiled (s.step e) := by
  obtain ⟨⟨calls, hcalls⟩, fires, hfires⟩ := step_grows s e
  rw [Spoiled, hcalls, hfires, List.map_append]
  rcases h with h | ⟨index, hi, hf⟩
  · exact .inl (List.mem_append_left _ h)
  · exact .inr ⟨index, getElem?_append_of_some hi _, List.mem_append_left _ hf⟩

/-- A packet id on the wire that is not registered is of a call that returned nothing. -/
def OwnerInv (s : Nowait) : Prop :=
  ∀ p index, s.owner p = some index → s.adapter.realToSynth p = none →
    s.calls[index]? = some none

theorem OwnerInv.step {s : Nowait} (h : OwnerInv s) (e : Event) : OwnerInv (s.step e) := by
  cases e with
  | attempt c =>
    by_cases hc : c.Fails
    · obtain ⟨hcalls, -, -, howner⟩ := attempt_of_fails hc s
      intro p index hp hreal
      change (attempt s c).calls[index]? = _
      rw [hcalls]
      rcases howner p with hnew | ⟨hold, hr⟩
      · obtain rfl := Option.some.inj (hnew.symm.trans hp)
        simp
      · exact getElem?_append_of_some (h p index (hold.symm.trans hp) (hr.symm.trans hreal)) _
    · cases hr : c.realMid with
      | none =>
        obtain ⟨adapter, hsame, heq⟩ := attempt_of_inline hc hr s
        intro p index hp hreal
        change (attempt s c).calls[index]? = _
        rw [Nowait.step, heq] at hp hreal
        rw [heq]
        exact getElem?_append_of_some (h p index hp (hsame ▸ hreal)) _
      | some q =>
        obtain ⟨adapter, hset, heq⟩ := attempt_of_registers hc hr s
        intro p index hp hreal
        change (attempt s c).calls[index]? = _
        rw [Nowait.step, heq] at hp hreal
        simp only [hset] at hp hreal
        by_cases hpq : p = q
        · rw [hpq, Function.update_self] at hreal
          cases hreal
        · rw [Function.update_of_ne hpq] at hp hreal
          rw [heq]
          exact getElem?_append_of_some (h p index hp hreal) _
  | acknowledge q =>
    intro p index hp hreal
    by_cases hpq : p = q
    · rw [hpq] at hp
      simp [Nowait.step, acknowledge] at hp
    · simp only [Nowait.step, acknowledge, removeAndAck, Function.update_of_ne hpq] at hp hreal
      exact h p index hp hreal
  | skip count => exact h

/-- An event that is not clean completes a call that returned nothing, or no call. -/
theorem OwnerInv.spoils {s : Nowait} (h : OwnerInv s) {e : Event} (he : ¬ Clean s e) :
    Spoiled (s.step e) := by
  cases e with
  | attempt c =>
    obtain ⟨hcalls, hfires, -⟩ := attempt_of_fails (not_not.1 he) s
    refine .inr ⟨s.calls.length, ?_, ?_⟩
    · change (attempt s c).calls[_]? = _
      simp [hcalls]
    · change _ ∈ (attempt s c).fires.map _
      simp [hfires]
  | acknowledge p =>
    have hreal : s.adapter.realToSynth p = none := not_not.1 he
    cases ho : s.owner p with
    | none => exact .inl (by simp [Nowait.step, acknowledge, ho])
    | some index => exact .inr ⟨index, h p index ho hreal, by simp [Nowait.step, acknowledge, ho]⟩
  | skip count => exact absurd trivial he

/-- **The accounts are right exactly when every event is clean**, for calls and
acknowledgements in any order. -/
theorem exec_accounted_iff (events : List Event) :
    Accounted (exec events) ↔ Along Nowait.step Clean Nowait.init events := by
  constructor
  · intro ha
    refine (along_or_foldl (I := OwnerInv) (J := Spoiled) (fun s e h => h.step e)
      (fun s e h => h.step e) (fun s e h he => h.spoils he) (fun p index hp _ => by cases hp)
      events).resolve_right fun hs => hs.not_accounted ha
  · intro h
    exact (h.foldl cleanInv_init fun s e hs he => hs.step e he).accounted

/-! ## The capacity loop -/

/-- Where `pub_capacity_nowait` stands between two of its steps. -/
inductive Phase
  | running
  /-- Awaiting the future in `state["waiter"]`. -/
  | waiting
  | returned
  deriving DecidableEq

/-- The state of `pub_capacity_nowait`; `waiter` says whether `state["waiter"]` is set. -/
structure Capacity where
  nowait : Nowait
  waiter : Bool
  phase : Phase
  stop : Bool

def Capacity.init : Capacity := ⟨Nowait.init, false, .running, false⟩

/-- `low_water`. -/
def lowWater (window : ℤ) : ℤ := window - max 1 (window / 4)

/-- The inner loop: publishes until the window is full, a call returns nothing, or a whole
window was published; `burst` of them so far. -/
def burstLoop (window : ℤ) (call : ℕ → Call) (burst : ℕ) (s : Nowait) : Nowait :=
  if s.run.inFlight < window then
    let mid := (Adapters.publishNowait s.adapter (call burst)).2.2
    let s := attempt s (call burst)
    if mid.isNone then s
    else if window ≤ burst + 1 then s
    else burstLoop window call (burst + 1) s
  else s
termination_by (window - burst).toNat

/-- One round of the loop.  `state["waiter"]` is not set while it runs, so that what
completes within a call releases nobody. -/
def Capacity.round (window : ℤ) (call : ℕ → Call) (s : Capacity) : Capacity :=
  if s.stop then { s with phase := .returned }
  else
    let nowait := burstLoop window call 0 s.nowait
    if window ≤ nowait.run.inFlight then { s with nowait, waiter := true, phase := .waiting }
    else { s with nowait, phase := .running }

/-- An acknowledgement, and `on_complete` after it. -/
def Capacity.acknowledge (window : ℤ) (mid : ℕ) (s : Capacity) : Capacity :=
  let nowait := Drive.acknowledge s.nowait mid
  if s.waiter ∧ nowait.run.inFlight ≤ lowWater window then { s with nowait, waiter := false }
  else { s with nowait }

/-- The coroutine can go on: the future it awaits is resolved when it is no longer in
`state["waiter"]`. -/
def Capacity.Runnable (s : Capacity) : Prop :=
  s.phase = .running ∨ s.phase = .waiting ∧ s.waiter = false

inductive CapacityAct
  | round (call : ℕ → Call)
  | acknowledge (mid : ℕ)
  /-- `run.stop` is set. -/
  | stop
  /-- `run.wake` is called. -/
  | wake

/-- One step on the loop; acknowledgements come between the rounds. -/
inductive CapacityStep (window : ℤ) : Capacity → CapacityAct → Capacity → Prop
  | round {s : Capacity} {call : ℕ → Call} :
      s.Runnable → CapacityStep window s (.round call) (s.round window call)
  | acknowledge {s : Capacity} {mid : ℕ} :
      CapacityStep window s (.acknowledge mid) (s.acknowledge window mid)
  | stop {s : Capacity} : CapacityStep window s .stop { s with stop := true }
  | wake {s : Capacity} : CapacityStep window s .wake { s with waiter := false }

/-- A state is the one that its events lead to. -/
def Recorded (s : Nowait) : Prop := s = exec s.events

theorem Recorded.step {s : Nowait} (h : Recorded s) (e : Event)
    (he : (s.step e).events = s.events ++ [e]) : Recorded (s.step e) := by
  rw [Recorded, he, exec, List.foldl_append, ← exec, ← h]
  rfl

theorem Recorded.attempt {s : Nowait} (h : Recorded s) (c : Call) : Recorded (attempt s c) :=
  h.step (.attempt c) rfl

theorem recorded_burstLoop {window : ℤ} {call : ℕ → Call} {burst : ℕ} {s : Nowait}
    (h : Recorded s) : Recorded (burstLoop window call burst s) := by
  induction burst, s using burstLoop.induct window call with
  | case1 burst s hlt mid hmid =>
    rw [burstLoop, if_pos hlt]
    simp only
    rw [if_pos hmid]
    exact h.attempt _
  | case2 burst s hlt mid hmid hfull =>
    rw [burstLoop, if_pos hlt]
    simp only
    rw [if_neg hmid, if_pos hfull]
    exact h.attempt _
  | case3 burst s hlt mid s' hmid hfull ih =>
    rw [burstLoop, if_pos hlt]
    simp only
    rw [if_neg hmid, if_neg hfull]
    exact ih (h.attempt _)
  | case4 burst s hlt =>
    rw [burstLoop, if_neg hlt]
    exact h

/-- What holds between any two steps: a waiter is set only for who waits, while more is in
flight than the low-water mark. -/
structure CapacityInv (window : ℤ) (s : Capacity) : Prop where
  recorded : Recorded s.nowait
  waiting : s.waiter = true → s.phase = .waiting
  above : s.waiter = true → lowWater window < s.nowait.run.inFlight

theorem capacityInv (window : ℤ) :
    Invariant (· = Capacity.init) (CapacityStep window) (CapacityInv window) where
  init h := by
    rw [h]
    exact ⟨rfl, nofun, nofun⟩
  step {s a s'} h hs := by
    cases hs with
    | @round call hrun =>
      have hwaiter : s.waiter = false := by
        rcases hrun with hp | ⟨-, hw⟩
        · cases hw : s.waiter
          · rfl
          · exact absurd ((h.waiting hw).symm.trans hp) (by decide)
        · exact hw
      unfold Capacity.round
      split
      · exact ⟨h.recorded, fun hw => by simp [hwaiter] at hw, fun hw => by simp [hwaiter] at hw⟩
      · simp only
        split
        · next hfull =>
          refine ⟨recorded_burstLoop h.recorded, fun _ => rfl, ?_⟩
          intro _
          have : lowWater window < window := by
            unfold lowWater
            omega
          exact this.trans_le hfull
        · exact ⟨recorded_burstLoop h.recorded, fun hw => by simp [hwaiter] at hw,
            fun hw => by simp [hwaiter] at hw⟩
    | @acknowledge mid =>
      have hrec : Recorded (Drive.acknowledge s.nowait mid) :=
        h.recorded.step (.acknowledge mid) rfl
      rw [Capacity.acknowledge]
      split
      · exact ⟨hrec, nofun, nofun⟩
      · next hnot =>
        exact ⟨hrec, h.waiting, fun hw => not_le.1 fun hle => hnot ⟨hw, hle⟩⟩
    | stop => exact { h with }
    | wake => exact ⟨h.recorded, nofun, nofun⟩

/-- **The capacity loop misses no wake-up**: it cannot go on only while more is in flight
than the low-water mark, or after it returned. -/
theorem capacity_awake {window : ℤ} {s : Capacity}
    (h : Reachable (· = Capacity.init) (CapacityStep window) s) :
    s.Runnable ∨ s.phase = .returned ∨
      s.waiter = true ∧ lowWater window < s.nowait.run.inFlight := by
  have hinv := h.holds (capacityInv window)
  cases hp : s.phase with
  | running => exact .inl (.inl hp)
  | returned => exact .inr (.inl rfl)
  | waiting =>
    cases hw : s.waiter with
    | false => exact .inl (.inr ⟨hp, hw⟩)
    | true => exact .inr (.inr ⟨rfl, hinv.above hw⟩)

/-! ## The fixed loop -/

/-- The state of `pub_fixed_nowait`. -/
structure FixedNowait where
  nowait : Nowait
  nextTick : ℤ
  returned : Bool

def FixedNowait.init (o : Offer) : FixedNowait := ⟨Nowait.init, o.tStart, false⟩

/-- One round of the loop, up to the next sleep. -/
def FixedNowait.round (o : Offer) (now : ℤ) (call : ℕ → Call) (s : FixedNowait) :
    FixedNowait :=
  if o.tEnd ≤ now then { s with returned := true }
  else
    let (run, owed) := owedNow o now s.nowait.run (maxDue o)
    let nowait := skip s.nowait (run.skipped - s.nowait.run.skipped)
    let nowait := (List.range owed.toNat).foldl (fun s j => attempt s (call j)) nowait
    let next := s.nextTick + tickNs
    { s with nowait, nextTick := if next < now then now + tickNs else next }

inductive FixedAct
  | round (now : ℤ) (call : ℕ → Call)
  | acknowledge (mid : ℕ)

/-- One step on the loop; acknowledgements come between the rounds. -/
inductive FixedStep (o : Offer) : FixedNowait → FixedAct → FixedNowait → Prop
  | round {s : FixedNowait} {now : ℤ} {call : ℕ → Call} :
      s.returned = false → FixedStep o s (.round now call) (s.round o now call)
  | acknowledge {s : FixedNowait} {mid : ℕ} :
      FixedStep o s (.acknowledge mid) { s with nowait := acknowledge s.nowait mid }

/-- Skipping changes the counters as `_owed` does. -/
theorem skip_owedNow (o : Offer) (now : ℤ) (s : Nowait) (max : ℤ) :
    (skip s ((owedNow o now s.run max).1.skipped - s.run.skipped)).run =
      (owedNow o now s.run max).1 := by
  rw [skip, owedNow]
  split
  · simp
  · simp

/-- A call counts as one publish of the offer's loop, accepted when it returns a `mid`. -/
theorem attempt_run (s : Nowait) (c : Call) (run : Run) (i clock : ℤ)
    (h : s.run.sent = run.sent ∧ s.run.rejected = run.rejected ∧ s.run.skipped = run.skipped) :
    let run' := publishNowait run i ⟨clock, (Adapters.publishNowait s.adapter c).2.2.isSome⟩
    (attempt s c).run.sent = run'.sent ∧ (attempt s c).run.rejected = run'.rejected ∧
      (attempt s c).run.skipped = run'.skipped := by
  obtain ⟨hsent, hrej, hskip⟩ := h
  rcases publishNowait_cases s.adapter c with ⟨hf, h2, -⟩ | ⟨hf, hr, h2, -⟩ | ⟨hf, p, hr, h2, -⟩
  · rw [(attempt_of_fails hf s).2.2.1, h2]
    simp [publishNowait, hsent, hrej, hskip]
  · obtain ⟨adapter, -, heq⟩ := attempt_of_inline hf hr s
    rw [heq, h2]
    simp [publishNowait, hsent, hrej, hskip]
  · obtain ⟨adapter, -, heq⟩ := attempt_of_registers hf hr s
    rw [heq, h2]
    simp [publishNowait, hsent, hrej, hskip]

/-- **A round of the loop is a tick of the offer's loop**, with the calls that return a
`mid` accepted. -/
theorem FixedNowait.round_eq_tick (o : Offer) {now : ℤ} (hnow : now < o.tEnd)
    (call : ℕ → Call) (s : FixedNowait) :
    ∃ t : Tick, t.now = now ∧
      let run := tick publishNowait o t s.nowait.run
      (s.round o now call).nowait.run.sent = run.sent ∧
        (s.round o now call).nowait.run.rejected = run.rejected ∧
        (s.round o now call).nowait.run.skipped = run.skipped := by
  rw [FixedNowait.round, if_neg (by omega)]
  rcases hr : owedNow o now s.nowait.run (maxDue o) with ⟨run, owed⟩
  simp only
  have hskip : (skip s.nowait (run.skipped - s.nowait.run.skipped)).run = run := by
    have := skip_owedNow o now s.nowait (maxDue o)
    rwa [hr] at this
  generalize skip s.nowait (run.skipped - s.nowait.run.skipped) = start at hskip
  refine ⟨⟨now, fun j => ⟨now, (Adapters.publishNowait
    ((List.range j).foldl (fun s j => Drive.attempt s (call j)) start).adapter
      (call j)).2.2.isSome⟩⟩, rfl, ?_⟩
  rw [tick, hr]
  simp only
  induction owed.toNat with
  | zero => exact ⟨by rw [← hskip]; rfl, by rw [← hskip]; rfl, by rw [← hskip]; rfl⟩
  | succ n ih =>
    simp only [List.range_succ, List.foldl_append, List.foldl_cons, List.foldl_nil]
    exact attempt_run _ _ _ _ _ ih

theorem recorded_fixed (o : Offer) :
    Invariant (· = FixedNowait.init o) (FixedStep o) fun s => Recorded s.nowait where
  init h := by
    rw [h]
    rfl
  step {s a s'} h hs := by
    cases hs with
    | @round now call _ =>
      unfold FixedNowait.round
      split
      · exact h
      · simp only
        generalize owedNow o now s.nowait.run (maxDue o) = r
        have hskip : Recorded (skip s.nowait (r.1.skipped - s.nowait.run.skipped)) :=
          h.step (.skip _) rfl
        induction r.2.toNat with
        | zero => exact hskip
        | succ n ih =>
          rw [List.range_succ, List.foldl_append]
          exact ih.attempt _
    | @acknowledge mid => exact h.step (.acknowledge mid) rfl

/-! ## Both loops -/

/-- **Under either loop, and for calls and acknowledgements in any order, the accounts are
right exactly when no call fails and no id is acknowledged that is not registered.** -/
theorem nowait_accounted_iff (events : List Event) (window : ℤ) (o : Offer) (c : Capacity)
    (hc : Reachable (· = Capacity.init) (CapacityStep window) c) (f : FixedNowait)
    (hf : Reachable (· = FixedNowait.init o) (FixedStep o) f) :
    (Accounted (exec events) ↔ Along Nowait.step Clean Nowait.init events) ∧
      (Accounted c.nowait ↔ Along Nowait.step Clean Nowait.init c.nowait.events) ∧
      (Accounted f.nowait ↔ Along Nowait.step Clean Nowait.init f.nowait.events) := by
  have hcapacity : Recorded c.nowait := (hc.holds (capacityInv window)).recorded
  have hfixed : Recorded f.nowait := hf.holds (recorded_fixed o)
  refine ⟨exec_accounted_iff events, ?_, ?_⟩
  · rw [← exec_accounted_iff, ← hcapacity]
  · rw [← exec_accounted_iff, ← hfixed]

/-- A QoS 1 call that registers packet id 5. -/
def registersFive : Call := ⟨1, .numbered 5 .stored⟩

theorem round_registersFive : Capacity.init.round 1 (fun _ => registersFive) =
    ⟨attempt Nowait.init registersFive, true, .waiting, false⟩ := by
  rw [Capacity.round, if_neg (by decide), burstLoop, if_pos (by decide)]
  rfl

theorem nowait_accounted_iff_example :
    Accounted (exec [.attempt registersFive, .acknowledge 5]) ∧
      Accounted (acknowledge (attempt Nowait.init registersFive) 5) ∧
      Accounted (FixedNowait.init offer3000).nowait := by
  have h0 : Reachable (· = Capacity.init) (CapacityStep 1) Capacity.init := .start rfl
  have h1 := h0.next (a := .round fun _ => registersFive) (.round (.inl rfl))
  rw [round_registersFive] at h1
  have h2 := h1.next (a := .acknowledge 5) .acknowledge
  obtain ⟨hexec, hcapacity, hfixed⟩ :=
    nowait_accounted_iff [.attempt registersFive, .acknowledge 5] 1 offer3000 _ h2 _ (.start rfl)
  have hclean : Along Nowait.step Clean Nowait.init
      [.attempt registersFive, .acknowledge 5] :=
    ⟨by decide, by decide, trivial⟩
  exact ⟨hexec.2 hclean, hcapacity.2 hclean, hfixed.2 trivial⟩

/-- The storage raises after the message went out: the attempt is counted as rejected, as
failed and, when its acknowledgement arrives, as done, while nothing is counted as sent. -/
theorem capacity_counts_again :
    ∃ c, Reachable (· = Capacity.init) (CapacityStep 4) c ∧
      c.nowait.events = [.attempt ⟨1, .numbered 5 .raises⟩, .acknowledge 5] ∧
      c.nowait.run.sent = 0 ∧ c.nowait.run.rejected = 1 ∧ c.nowait.run.failed = 1 ∧
      c.nowait.run.done = 1 ∧ ¬ Accounted c.nowait := by
  have h0 : Reachable (· = Capacity.init) (CapacityStep 4) Capacity.init := .start rfl
  have h1 := h0.next (a := .round fun _ => ⟨1, .numbered 5 .raises⟩) (.round (.inl rfl))
  have hburst : burstLoop 4 (fun _ => ⟨1, .numbered 5 .raises⟩) 0 Capacity.init.nowait =
      attempt Nowait.init ⟨1, .numbered 5 .raises⟩ := by
    rw [burstLoop, if_pos (by decide)]
    rfl
  have hround : Capacity.init.round 4 (fun _ => ⟨1, .numbered 5 .raises⟩) =
      ⟨attempt Nowait.init ⟨1, .numbered 5 .raises⟩, false, .running, false⟩ := by
    rw [Capacity.round, if_neg (by decide), hburst]
    rfl
  rw [hround] at h1
  refine ⟨_, h1.next (a := .acknowledge 5) .acknowledge, rfl, rfl, rfl, rfl, rfl, ?_⟩
  intro h
  exact absurd h.bounded (by decide)

end Drive
