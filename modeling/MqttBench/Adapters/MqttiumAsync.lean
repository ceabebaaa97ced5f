import MqttBench.Adapters.GmqttAsync
import MqttBench.Lib.Traces

/-!
# Receipts of the MQTTium adapter

`_publish_qos_via_receipt` of `adapters/mqttium_async.py` with `receipt_already_done`,
`_reason_from_receipt` and `observe_receipt` of `adapters/mqttium.py`.  The library is outside:
what a receipt offers is the `Build`, and what happens to it while it is admitted is the
`Admission`.  `on_publish` is set, as the drive loops set it before the first call.

* `publishQosViaReceipt`, `settle`, `turn` — the program and the loop.
* `Tracked` — the life of one publish: from waiting to relayed, or early, or missed.
* `Tracks.step` — every event keeps every publish on its way.
* `relays_outcomes_iff` — **when the outcome of a publish does not depend on the moment its
  receipt settles.**
-/

namespace Adapters

open Traces

/-! ## Receipts -/

/-- How a publication ends. -/
inductive Outcome
  | success
  | error
  deriving DecidableEq

/-- What a build of the library offers: `is_done` and `add_done_callback` of its receipts, and
whether settling schedules the done callbacks or runs them. -/
structure Build where
  isDone : Bool
  addDoneCallback : Bool
  deferred : Bool

/-- The function that is registered on a receipt: it holds the receipt and `synth`. -/
structure OnComplete where
  receipt : ℕ
  synth : ℕ
  deriving DecidableEq

/-- A receipt: how it settled, the done callbacks and `_waiters`. -/
structure Receipt where
  outcome : Option Outcome
  callbacks : List OnComplete
  waiters : Option (List OnComplete)

/-- `receipt_already_done(receipt)`. -/
def receiptAlreadyDone (b : Build) (r : Receipt) : Bool := b.isDone && r.outcome.isSome

/-- `_reason_from_receipt(receipt)`: `exception()` and `_error` hold the error of a receipt
that ended in one. -/
def reasonFromReceipt (r : Receipt) : ℕ := if r.outcome = some .error then 128 else 0

/-- What happens to a receipt while it is admitted: how it settles before `publish_nowait`
returns it, and how between the test and the registration. -/
structure Admission where
  before : Option Outcome
  between : Option Outcome

/-- What the library's `publish_nowait` does. -/
inductive Admitted
  | receipt (a : Admission)
  | flowControl
  | raises (message : String)

/-! ## The program -/

/-- A call of `on_publish`, with the number of the publish it is for. -/
structure Relay where
  publish : ℕ
  fired : Fired

/-- `_next_mid`, the receipts by number, and the callbacks scheduled on the loop.
`admissions` is a record of the publishes accepted, `mids` of what they returned and `calls`
of the calls of `on_publish`. -/
structure MqttiumAsync where
  nextMid : ℕ
  receipts : ℕ → Receipt
  ready : List OnComplete
  admissions : List Admission
  mids : ℕ → ℕ
  calls : List Relay

namespace MqttiumAsync

/-- `MqttiumAsyncAdapter()`. -/
def init : MqttiumAsync := ⟨0, fun _ => ⟨none, [], none⟩, [], [], fun _ => 0, []⟩

/-- `_fire_bench_publish(mid, reason)` for publish `i`. -/
def fireBenchPublish (s : MqttiumAsync) (i mid reason : ℕ) : MqttiumAsync :=
  { s with calls := s.calls ++ [⟨i, ⟨mid, reason⟩⟩] }

/-- What is registered runs: `on_complete(_reason_from_receipt(receipt))`. -/
def complete (s : MqttiumAsync) (c : OnComplete) : MqttiumAsync :=
  s.fireBenchPublish c.receipt c.synth (reasonFromReceipt (s.receipts c.receipt))

/-- The library's `receipt.add_done_callback`.  On a settled receipt the callback is deferred to the
event loop; here it runs at once, with the same outcome. -/
def addDoneCallback (s : MqttiumAsync) (c : OnComplete) : MqttiumAsync :=
  let r := s.receipts c.receipt
  match r.outcome with
  | some _ => s.complete c
  | none =>
    { s with
      receipts := Function.update s.receipts c.receipt { r with callbacks := r.callbacks ++ [c] } }

/-- `observe_receipt(receipt, on_complete)`. -/
def observeReceipt (b : Build) (s : MqttiumAsync) (c : OnComplete) : MqttiumAsync :=
  if b.addDoneCallback then s.addDoneCallback c
  else
    let r := s.receipts c.receipt
    let waiters := match r.waiters with
      | none => [c]
      | some waiters => waiters ++ [c]
    { s with receipts := Function.update s.receipts c.receipt { r with waiters := some waiters } }

/-- The library settles receipt `i`, once: its done callbacks run or are scheduled, and the
callbacks of its waiters are scheduled. -/
def settle (b : Build) (s : MqttiumAsync) (i : ℕ) (o : Outcome) : MqttiumAsync :=
  let r := s.receipts i
  if s.admissions.length ≤ i ∨ r.outcome.isSome then s
  else
    let s := { s with receipts := Function.update s.receipts i ⟨some o, [], none⟩ }
    let s := if b.deferred then { s with ready := s.ready ++ r.callbacks }
      else r.callbacks.foldl complete s
    { s with ready := s.ready ++ r.waiters.getD [] }

/-- A turn of the loop: what is scheduled runs. -/
def turn (s : MqttiumAsync) : MqttiumAsync := s.ready.foldl complete { s with ready := [] }

/-- `_publish_qos_via_receipt`: the adapter, and what is returned or raised. -/
def publishQosViaReceipt (b : Build) (s : MqttiumAsync) :
    Admitted → MqttiumAsync × Except String (Option ℕ)
  | .flowControl => (s, .ok none)
  | .raises message => (s, .error message)
  | .receipt a =>
    let i := s.admissions.length
    let s := { s with
      admissions := s.admissions ++ [a]
      receipts := Function.update s.receipts i ⟨a.before, [], none⟩ }
    let mid := allocMid s.nextMid
    let s := { s with nextMid := mid }
    if receiptAlreadyDone b (s.receipts i) then (s.fireBenchPublish i mid 0, .ok (some mid))
    else
      let s := match a.between with
        | none => s
        | some o => s.settle b i o
      (s.observeReceipt b ⟨i, mid⟩, .ok (some mid))

end MqttiumAsync

/-- An event: a publish, a receipt that settles, or a turn of the loop. -/
inductive ReceiptEvent
  | publish (answer : Admitted)
  | settle (i : ℕ) (o : Outcome)
  | turn

namespace MqttiumAsync

/-- Publish `i` returned `mid`. -/
def returned (s : MqttiumAsync) (i mid : ℕ) : MqttiumAsync :=
  { s with mids := Function.update s.mids i mid }

/-- One event; what a publish returns is recorded. -/
def step (b : Build) (s : MqttiumAsync) : ReceiptEvent → MqttiumAsync
  | .publish answer =>
    match s.publishQosViaReceipt b answer with
    | (s', .ok (some mid)) => s'.returned s.admissions.length mid
    | (s', _) => s'
  | .settle i o => s.settle b i o
  | .turn => s.turn

/-- A run. -/
def run (b : Build) (events : List ReceiptEvent) : MqttiumAsync := events.foldl (step b) init

/-- What is scheduled for publish `i`. -/
def readyOf (s : MqttiumAsync) (i : ℕ) : List OnComplete := s.ready.filter (·.receipt = i)

/-- The calls of `on_publish` for publish `i`. -/
def callsOf (s : MqttiumAsync) (i : ℕ) : List Fired :=
  (s.calls.filter (·.publish = i)).map Relay.fired

end MqttiumAsync

/-! ## Admissions -/

namespace Admission

variable (b : Build) (a : Admission)

/-- The test finds the receipt settled. -/
def Early : Prop := b.isDone = true ∧ a.before ≠ none

/-- The receipt is settled when its waiter is added. -/
def Missed : Prop :=
  ¬ a.Early b ∧ b.addDoneCallback = false ∧ (a.before ≠ none ∨ a.between ≠ none)

/-- The outcome will be relayed: the receipt is not found settled with an error, and no waiter
is added to a settled receipt. -/
def Kept : Prop := ¬ (b.isDone = true ∧ a.before = some .error) ∧ ¬ a.Missed b

end Admission

/-- The publishes that a run accepts. -/
def admitted (events : List ReceiptEvent) : List Admission :=
  events.filterMap fun
    | .publish (.receipt a) => some a
    | _ => none

/-- The reason that stands for an outcome. -/
def Outcome.reason : Outcome → ℕ
  | .success => 0
  | .error => 128

/-- Publish `i` is relayed: not before its receipt settles, and then, when what is scheduled for
it has run, once, with the mid it returned and the reason of the outcome. -/
def Relayed (s : MqttiumAsync) (i : ℕ) : Prop :=
  ((s.receipts i).outcome = none → s.callsOf i = []) ∧
    ∀ o, (s.receipts i).outcome = some o → s.readyOf i = [] →
      s.callsOf i = [⟨s.mids i, o.reason⟩]

/-- A receipt that settles later, once the adapter observes it. -/
def registered (b : Build) (c : OnComplete) : Receipt :=
  if b.addDoneCallback then ⟨none, [c], none⟩ else ⟨none, [], some [c]⟩

/-- The life of a publish that returned `mid`: its receipt, what is scheduled for it and the
calls made. -/
inductive Tracked (b : Build) (a : Admission) (i mid : ℕ) :
    Receipt → List OnComplete → List Fired → Prop
  /-- Called at once. -/
  | early {o : Outcome} : a.Early b → a.before = some o →
      Tracked b a i mid ⟨some o, [], none⟩ [] [⟨mid, 0⟩]
  /-- Its waiter came too late. -/
  | missed {o : Outcome} : a.Missed b → Tracked b a i mid ⟨some o, [], some [⟨i, mid⟩]⟩ [] []
  | waiting : ¬ a.Early b → a.before = none → a.between = none →
      Tracked b a i mid (registered b ⟨i, mid⟩) [] []
  | scheduled {o : Outcome} : ¬ a.Early b → ¬ a.Missed b →
      Tracked b a i mid ⟨some o, [], none⟩ [⟨i, mid⟩] []
  | relayed {o : Outcome} : ¬ a.Early b → ¬ a.Missed b →
      Tracked b a i mid ⟨some o, [], none⟩ [] [⟨mid, o.reason⟩]

theorem reasonFromReceipt_some (o : Outcome) (cs : List OnComplete)
    (ws : Option (List OnComplete)) : reasonFromReceipt ⟨some o, cs, ws⟩ = o.reason := by
  cases o <;> rfl

theorem registered_outcome (b : Build) (c : OnComplete) : (registered b c).outcome = none := by
  unfold registered
  split <;> rfl

/-- What holds of every publish of a run. -/
structure Tracks (b : Build) (s : MqttiumAsync) : Prop where
  ready_lt : ∀ c ∈ s.ready, c.receipt < s.admissions.length
  calls_lt : ∀ r ∈ s.calls, r.publish < s.admissions.length
  each : ∀ i a, s.admissions[i]? = some a →
    Tracked b a i (s.mids i) (s.receipts i) (s.readyOf i) (s.callsOf i)

/-- **What the life of a publish says of its outcome.** -/
theorem Tracked.relayed_iff {b : Build} {a : Admission} {i mid : ℕ} {r : Receipt}
    {ready : List OnComplete} {calls : List Fired} (h : Tracked b a i mid r ready calls) :
    ((r.outcome = none → calls = []) ∧
      ∀ o, r.outcome = some o → ready = [] → calls = [⟨mid, o.reason⟩]) ↔ a.Kept b := by
  cases h with
  | @early o hearly hbefore =>
    constructor
    · rintro ⟨_, hright⟩
      have hzero := hright o rfl rfl
      refine ⟨?_, fun hmissed => hmissed.1 hearly⟩
      rintro ⟨_, herror⟩
      rw [hbefore, Option.some.injEq] at herror
      subst herror
      exact absurd (Fired.mk.inj (List.cons.inj hzero).1).2 (by decide)
    · rintro ⟨hkept, _⟩
      refine ⟨fun hnone => absurd hnone (Option.some_ne_none o), ?_⟩
      rintro o' ho' _
      obtain rfl : o = o' := Option.some.inj ho'
      cases o with
      | success => rfl
      | error => exact absurd ⟨hearly.1, hbefore⟩ hkept
  | @missed o hmissed =>
    refine iff_of_false ?_ (fun hkept => hkept.2 hmissed)
    rintro ⟨_, hright⟩
    exact absurd (hright o rfl rfl) (List.cons_ne_nil _ _).symm
  | waiting hearly hbefore hbetween =>
    refine iff_of_true ⟨fun _ => rfl, ?_⟩ ⟨?_, ?_⟩
    · intro o ho
      rw [registered_outcome] at ho
      cases ho
    · rintro ⟨_, herror⟩
      rw [hbefore] at herror
      cases herror
    · rintro ⟨_, _, hsettled | hsettled⟩
      · exact hsettled hbefore
      · exact hsettled hbetween
  | @scheduled o hearly hmissed =>
    refine iff_of_true ⟨fun _ => rfl, ?_⟩ ⟨?_, hmissed⟩
    · intro o' _ hready
      cases hready
    · rintro ⟨hdone, herror⟩
      exact hearly ⟨hdone, by rw [herror]; exact Option.some_ne_none _⟩
  | @relayed o hearly hmissed =>
    refine iff_of_true ⟨fun hnone => absurd hnone (Option.some_ne_none o), ?_⟩ ⟨?_, hmissed⟩
    · rintro o' ho' _
      obtain rfl : o = o' := Option.some.inj ho'
      rfl
    · rintro ⟨hdone, herror⟩
      exact hearly ⟨hdone, by rw [herror]; exact Option.some_ne_none _⟩

/-! ## One event -/

namespace MqttiumAsync

variable {b : Build} {s : MqttiumAsync}

/-- Callbacks that run make one call each. -/
theorem foldl_complete (cs : List OnComplete) (s : MqttiumAsync) :
    cs.foldl complete s =
      { s with
        calls := s.calls ++ cs.map fun c =>
          ⟨c.receipt, ⟨c.synth, reasonFromReceipt (s.receipts c.receipt)⟩⟩ } := by
  induction cs generalizing s with
  | nil => simp
  | cons c cs ih =>
    rw [List.foldl_cons, ih, List.map_cons]
    unfold complete fireBenchPublish
    simp

/-- The adapter with one more publish, whose receipt is now `r` and for which `fired` was
called. -/
def accept (s : MqttiumAsync) (a : Admission) (r : Receipt) (fired : List Fired) : MqttiumAsync where
  nextMid := allocMid s.nextMid
  receipts := Function.update s.receipts s.admissions.length r
  ready := s.ready
  admissions := s.admissions ++ [a]
  mids := Function.update s.mids s.admissions.length (allocMid s.nextMid)
  calls := s.calls ++ fired.map (⟨s.admissions.length, ·⟩)

/-- The adapter with a receipt more, when it observes it. -/
def observing (s : MqttiumAsync) (a : Admission) (outcome : Option Outcome) : MqttiumAsync :=
  { s with
    nextMid := allocMid s.nextMid
    admissions := s.admissions ++ [a]
    receipts := Function.update s.receipts s.admissions.length ⟨outcome, [], none⟩ }

/-- A receipt that nothing is registered on just settles. -/
theorem settle_observing (b : Build) (s : MqttiumAsync) (a : Admission) (o : Outcome) :
    (s.observing a a.before).settle b s.admissions.length o =
      s.observing a (a.before.or (some o)) := by
  unfold settle observing
  cases hbefore : a.before with
  | some o' => simp
  | none => simp

theorem receipts_observing (s : MqttiumAsync) (a : Admission) (outcome : Option Outcome) :
    (s.observing a outcome).receipts s.admissions.length = ⟨outcome, [], none⟩ :=
  Function.update_self ..

/-- A publish that the test does not find settled is observed. -/
theorem publish_observe (b : Build) (s : MqttiumAsync) (a : Admission)
    (htest : (b.isDone && a.before.isSome) = false) :
    s.publishQosViaReceipt b (.receipt a) =
      (observeReceipt b (s.observing a (a.before.or a.between))
        ⟨s.admissions.length, allocMid s.nextMid⟩, .ok (some (allocMid s.nextMid))) := by
  have hbetween : (match a.between with
      | none => s.observing a a.before
      | some o => (s.observing a a.before).settle b s.admissions.length o) =
        s.observing a (a.before.or a.between) := by
    cases a.between with
    | none => rw [Option.or_none]
    | some o => exact settle_observing b s a o
  have hnot : receiptAlreadyDone b ((s.observing a a.before).receipts s.admissions.length) =
      false := by
    rw [receipts_observing]
    exact htest
  have hpublish : s.publishQosViaReceipt b (.receipt a) =
      if receiptAlreadyDone b ((s.observing a a.before).receipts s.admissions.length) then
        ((s.observing a a.before).fireBenchPublish s.admissions.length (allocMid s.nextMid) 0,
          .ok (some (allocMid s.nextMid)))
      else
        (observeReceipt b (match a.between with
            | none => s.observing a a.before
            | some o => (s.observing a a.before).settle b s.admissions.length o)
          ⟨s.admissions.length, allocMid s.nextMid⟩, .ok (some (allocMid s.nextMid))) := rfl
  rw [hpublish, hnot, if_neg Bool.false_ne_true, hbetween]

/-- **An accepted publish begins its life**, whenever its receipt settles. -/
theorem step_receipt (b : Build) (s : MqttiumAsync) (a : Admission) :
    ∃ r fired, s.step b (.publish (.receipt a)) = s.accept a r fired ∧
      Tracked b a s.admissions.length (allocMid s.nextMid) r [] fired := by
  by_cases hearly : a.Early b
  · obtain ⟨hdone, hbefore⟩ := hearly
    obtain ⟨o, ho⟩ := Option.ne_none_iff_exists'.1 hbefore
    refine ⟨⟨some o, [], none⟩, [⟨allocMid s.nextMid, 0⟩], ?_, .early ⟨hdone, hbefore⟩ ho⟩
    simp [step, publishQosViaReceipt, receiptAlreadyDone, hdone, ho, fireBenchPublish, returned,
      accept]
  have htest : (b.isDone && a.before.isSome) = false := by
    by_contra htrue
    simp only [Bool.not_eq_false, Bool.and_eq_true] at htrue
    exact hearly ⟨htrue.1, Option.isSome_iff_ne_none.1 htrue.2⟩
  have hstep : s.step b (.publish (.receipt a)) =
      (observeReceipt b (s.observing a (a.before.or a.between))
        ⟨s.admissions.length, allocMid s.nextMid⟩).returned s.admissions.length
          (allocMid s.nextMid) := by
    simp only [step, publish_observe b s a htest]
  rw [hstep]
  cases hbuild : b.addDoneCallback with
  | true =>
    have hkept : ¬ a.Missed b := fun hmissed => absurd hmissed.2.1 (by rw [hbuild]; decide)
    cases hsettled : a.before.or a.between with
    | some o =>
      -- The callback runs at once.
      refine ⟨⟨some o, [], none⟩, [⟨allocMid s.nextMid, o.reason⟩], ?_, .relayed hearly hkept⟩
      simp [observeReceipt, hbuild, addDoneCallback, complete, reasonFromReceipt_some,
        fireBenchPublish, observing, returned, accept]
    | none =>
      obtain ⟨hbefore, hbetween⟩ := Option.or_eq_none_iff.1 hsettled
      refine ⟨_, [], ?_, .waiting hearly hbefore hbetween⟩
      simp [observeReceipt, hbuild, addDoneCallback, registered, observing, returned, accept]
  | false =>
    cases hsettled : a.before.or a.between with
    | some o =>
      have hmissed : a.Missed b := by
        refine ⟨hearly, hbuild, ?_⟩
        by_contra hnone
        rw [not_or, not_not, not_not] at hnone
        rw [Option.or_eq_none_iff.2 hnone] at hsettled
        cases hsettled
      refine ⟨⟨some o, [], some [⟨s.admissions.length, allocMid s.nextMid⟩]⟩, [], ?_,
        .missed hmissed⟩
      simp [observeReceipt, hbuild, observing, returned, accept]
    | none =>
      obtain ⟨hbefore, hbetween⟩ := Option.or_eq_none_iff.1 hsettled
      refine ⟨_, [], ?_, .waiting hearly hbefore hbetween⟩
      simp [observeReceipt, hbuild, registered, observing, returned, accept]

/-! ## Every event -/

theorem filter_calls_map (fired : List Fired) (n i : ℕ) :
    ((fired.map (⟨n, ·⟩ : Fired → Relay)).filter (·.publish = i)).map Relay.fired =
      if n = i then fired else [] := by
  induction fired with
  | nil => simp
  | cons f fired ih =>
    rw [List.map_cons, List.filter_cons]
    by_cases hn : n = i
    · simp only [hn] at ih ⊢
      simp [ih]
    · simp only [hn] at ih ⊢
      simp [ih]

end MqttiumAsync

open MqttiumAsync

/-- A publish that is not there yet has nothing scheduled and no calls. -/
theorem Tracks.fresh {b : Build} {s : MqttiumAsync} (h : Tracks b s) {i : ℕ}
    (hi : s.admissions.length ≤ i) : s.readyOf i = [] ∧ s.callsOf i = [] := by
  constructor
  · unfold readyOf
    rw [List.filter_eq_nil_iff]
    intro c hc hci
    have hlt := h.ready_lt c hc
    have heq := of_decide_eq_true hci
    omega
  · unfold callsOf
    rw [List.map_eq_nil_iff, List.filter_eq_nil_iff]
    intro r hr hri
    have hlt := h.calls_lt r hr
    have heq := of_decide_eq_true hri
    omega

/-- One publish more. -/
theorem Tracks.accept {b : Build} {s : MqttiumAsync} (h : Tracks b s) {a : Admission} {r : Receipt}
    {fired : List Fired}
    (ha : Tracked b a s.admissions.length (allocMid s.nextMid) r [] fired) :
    Tracks b (s.accept a r fired) where
  ready_lt := by
    intro c hc
    have hlt := h.ready_lt c hc
    change c.receipt < (s.admissions ++ [a]).length
    rw [List.length_append]
    exact Nat.lt_add_right 1 hlt
  calls_lt := by
    intro c hc
    change c.publish < (s.admissions ++ [a]).length
    rw [List.length_append, List.length_singleton]
    rcases List.mem_append.1 hc with hold | hnew
    · have hlt := h.calls_lt c hold
      omega
    · obtain ⟨f, _, rfl⟩ := List.mem_map.1 hnew
      exact Nat.lt_succ_self _
  each := by
    intro i a' ha'
    have hready : (s.accept a r fired).readyOf i = s.readyOf i := rfl
    have hcalls : (s.accept a r fired).callsOf i =
        s.callsOf i ++ if s.admissions.length = i then fired else [] := by
      unfold MqttiumAsync.accept callsOf
      rw [List.filter_append, List.map_append, filter_calls_map]
    rw [hready, hcalls]
    change (s.admissions ++ [a])[i]? = some a' at ha'
    change Tracked b a' i (Function.update s.mids s.admissions.length (allocMid s.nextMid) i)
      (Function.update s.receipts s.admissions.length r i) _ _
    rcases lt_trichotomy i s.admissions.length with hlt | rfl | hgt
    · rw [List.getElem?_append_left hlt] at ha'
      rw [Function.update_of_ne hlt.ne, Function.update_of_ne hlt.ne, if_neg hlt.ne',
        List.append_nil]
      exact h.each i a' ha'
    · rw [List.getElem?_append_right le_rfl, Nat.sub_self] at ha'
      obtain rfl : a = a' := Option.some.inj ha'
      obtain ⟨hnone, hnone'⟩ := h.fresh le_rfl
      rw [Function.update_self, Function.update_self, if_pos rfl, hnone, hnone', List.nil_append]
      exact ha
    · rw [List.getElem?_append_right hgt.le, List.getElem?_eq_none (by simp; omega)] at ha'
      cases ha'

/-- A publish whose receipt is pending waits. -/
theorem Tracked.of_pending {b : Build} {a : Admission} {i mid : ℕ} {r : Receipt}
    {ready : List OnComplete} {calls : List Fired} (h : Tracked b a i mid r ready calls)
    (hr : r.outcome = none) :
    ¬ a.Early b ∧ ¬ a.Missed b ∧ r = registered b ⟨i, mid⟩ ∧ ready = [] ∧ calls = [] := by
  cases h with
  | early _ _ => cases hr
  | missed _ => cases hr
  | waiting hearly hbefore hbetween =>
    refine ⟨hearly, ?_, rfl, rfl, rfl⟩
    rintro ⟨_, _, hsettled | hsettled⟩
    · exact hsettled hbefore
    · exact hsettled hbetween
  | scheduled _ _ => cases hr
  | relayed _ _ => cases hr

/-- The adapter when publish `i` has moved on: its receipt is `r`, and `ready` is scheduled and
`fired` called for it. -/
def advance (s : MqttiumAsync) (i : ℕ) (r : Receipt) (ready : List OnComplete)
    (fired : List Fired) : MqttiumAsync :=
  { s with
    receipts := Function.update s.receipts i r
    ready := s.ready ++ ready
    calls := s.calls ++ fired.map (⟨i, ·⟩) }

/-- **What happens to one publish leaves the others alone.** -/
theorem Tracks.advance {b : Build} {s : MqttiumAsync} (h : Tracks b s) {i : ℕ} {a : Admission}
    (ha : s.admissions[i]? = some a) {r : Receipt} {ready : List OnComplete} {fired : List Fired}
    (hready : ∀ c ∈ ready, c.receipt = i)
    (hi : Tracked b a i (s.mids i) r (s.readyOf i ++ ready) (s.callsOf i ++ fired)) :
    Tracks b (advance s i r ready fired) where
  ready_lt := by
    intro c hc
    rcases List.mem_append.1 hc with hold | hnew
    · exact h.ready_lt c hold
    · rw [hready c hnew]
      exact (List.getElem?_eq_some_iff.1 ha).1
  calls_lt := by
    intro x hx
    rcases List.mem_append.1 hx with hold | hnew
    · exact h.calls_lt x hold
    · obtain ⟨f, _, rfl⟩ := List.mem_map.1 hnew
      exact (List.getElem?_eq_some_iff.1 ha).1
  each := by
    intro j a' ha'
    have hcalls : (Adapters.advance s i r ready fired).callsOf j =
        s.callsOf j ++ if i = j then fired else [] := by
      unfold Adapters.advance callsOf
      rw [List.filter_append, List.map_append, filter_calls_map]
    have hsched : (Adapters.advance s i r ready fired).readyOf j =
        s.readyOf j ++ if i = j then ready else [] := by
      unfold Adapters.advance readyOf
      rw [List.filter_append]
      congr 1
      split
      · next hij => exact List.filter_eq_self.2 fun c hc => decide_eq_true ((hready c hc).trans hij)
      · next hij =>
        exact List.filter_eq_nil_iff.2 fun c hc hcj =>
          hij ((hready c hc).symm.trans (of_decide_eq_true hcj))
    rw [hcalls, hsched]
    change Tracked b a' j (s.mids j) (Function.update s.receipts i r j) _ _
    by_cases hij : i = j
    · subst hij
      obtain rfl : a = a' := Option.some.inj (ha.symm.trans ha')
      rw [Function.update_self, if_pos rfl, if_pos rfl]
      exact hi
    · rw [Function.update_of_ne (Ne.symm hij), if_neg hij, if_neg hij, List.append_nil,
        List.append_nil]
      exact h.each j a' ha'

/-- A pending receipt that settles: what is registered is scheduled, or it runs. -/
theorem settle_registered (b : Build) (s : MqttiumAsync) {i mid : ℕ} (o : Outcome)
    (hlt : i < s.admissions.length) (hr : s.receipts i = registered b ⟨i, mid⟩) :
    s.settle b i o = advance s i ⟨some o, [], none⟩ [⟨i, mid⟩] [] ∨
      s.settle b i o = advance s i ⟨some o, [], none⟩ [] [⟨mid, o.reason⟩] := by
  have hguard : ¬ (s.admissions.length ≤ i ∨ (s.receipts i).outcome.isSome = true) := by
    rw [hr, registered_outcome]
    rintro (hle | hsome)
    · omega
    · cases hsome
  unfold MqttiumAsync.settle
  simp only
  rw [if_neg hguard, hr]
  unfold registered
  cases b.addDoneCallback with
  | true =>
    cases b.deferred with
    | true =>
      left
      simp [advance]
    | false =>
      right
      simp [advance, complete, fireBenchPublish, reasonFromReceipt_some]
  | false =>
    left
    cases b.deferred with
    | true => simp [advance]
    | false => simp [advance]

/-- **A receipt settles.** -/
theorem Tracks.settle {b : Build} {s : MqttiumAsync} (h : Tracks b s) (i : ℕ) (o : Outcome) :
    Tracks b (s.settle b i o) := by
  by_cases hguard : s.admissions.length ≤ i ∨ (s.receipts i).outcome.isSome = true
  · have hsame : s.settle b i o = s := by
      unfold MqttiumAsync.settle
      exact if_pos hguard
    rw [hsame]
    exact h
  rw [not_or, not_le, Bool.not_eq_true, Option.isSome_eq_false_iff, Option.isNone_iff_eq_none]
    at hguard
  obtain ⟨hlt, hpending⟩ := hguard
  have ha := List.getElem?_eq_getElem hlt
  obtain ⟨hearly, hmissed, hr, hready, hcalls⟩ := (h.each i _ ha).of_pending hpending
  rcases settle_registered b s o hlt hr with hsettle | hsettle
  · rw [hsettle]
    apply h.advance ha (by simp)
    rw [hready, hcalls]
    exact .scheduled hearly hmissed
  · rw [hsettle]
    apply h.advance ha (by simp)
    rw [hready, hcalls]
    exact .relayed hearly hmissed

/-- What is scheduled for a publish runs. -/
theorem Tracked.turn {b : Build} {a : Admission} {i mid : ℕ} {r : Receipt}
    {ready : List OnComplete} {calls : List Fired} (h : Tracked b a i mid r ready calls) :
    Tracked b a i mid r [] (calls ++ ready.map fun c => ⟨c.synth, reasonFromReceipt r⟩) := by
  cases h with
  | early hearly hbefore => exact .early hearly hbefore
  | missed hmissed => exact .missed hmissed
  | waiting hearly hbefore hbetween => exact .waiting hearly hbefore hbetween
  | scheduled hearly hmissed =>
    rw [List.map_singleton, reasonFromReceipt_some]
    exact .relayed hearly hmissed
  | relayed hearly hmissed => exact .relayed hearly hmissed

/-- **A turn of the loop.** -/
theorem Tracks.turn {b : Build} {s : MqttiumAsync} (h : Tracks b s) : Tracks b s.turn := by
  unfold MqttiumAsync.turn
  rw [foldl_complete]
  refine ⟨fun c hc => absurd hc List.not_mem_nil, ?_, ?_⟩
  · intro r hr
    rcases List.mem_append.1 hr with hold | hnew
    · exact h.calls_lt r hold
    · obtain ⟨c, hc, rfl⟩ := List.mem_map.1 hnew
      exact h.ready_lt c hc
  · intro i a ha
    have hi := (h.each i a ha).turn
    have hcalls : (((s.ready.map fun c => (⟨c.receipt,
        ⟨c.synth, reasonFromReceipt (s.receipts c.receipt)⟩⟩ : Relay)).filter
          (·.publish = i)).map Relay.fired) =
        (s.readyOf i).map fun c => ⟨c.synth, reasonFromReceipt (s.receipts i)⟩ := by
      unfold readyOf
      rw [List.filter_map, List.map_map]
      apply List.map_congr_left
      intro c hc
      have hreceipt : c.receipt = i := of_decide_eq_true (List.mem_filter.1 hc).2
      simp only [Function.comp_apply, hreceipt]
    rw [← hcalls] at hi
    unfold callsOf at hi ⊢
    rw [List.filter_append, List.map_append]
    exact hi

/-- **Every event keeps every publish on its way.** -/
theorem Tracks.step {b : Build} {s : MqttiumAsync} (h : Tracks b s) (event : ReceiptEvent) :
    Tracks b (s.step b event) := by
  cases event with
  | publish answer =>
    cases answer with
    | receipt a =>
      obtain ⟨r, fired, hstep, htracked⟩ := step_receipt b s a
      rw [hstep]
      exact h.accept htracked
    | flowControl => exact h
    | raises message => exact h
  | settle i o => exact h.settle i o
  | turn => exact h.turn

/-! ## Runs -/

theorem tracks_init (b : Build) : Tracks b .init where
  ready_lt _ h := absurd h List.not_mem_nil
  calls_lt _ h := absurd h List.not_mem_nil
  each _ _ h := by cases h

theorem tracks_run (b : Build) (events : List ReceiptEvent) : Tracks b (run b events) :=
  foldl_holds (fun _ event h => h.step event) (tracks_init b) events

theorem admissions_settle (b : Build) (s : MqttiumAsync) (i : ℕ) (o : Outcome) :
    (s.settle b i o).admissions = s.admissions := by
  unfold MqttiumAsync.settle
  simp only
  by_cases hguard : s.admissions.length ≤ i ∨ (s.receipts i).outcome.isSome = true
  · rw [if_pos hguard]
  · rw [if_neg hguard]
    cases b.deferred with
    | true => rfl
    | false => simp [foldl_complete]

theorem admissions_step (b : Build) (s : MqttiumAsync) (event : ReceiptEvent) :
    (s.step b event).admissions = s.admissions ++ admitted [event] := by
  cases event with
  | publish answer =>
    cases answer with
    | receipt a =>
      obtain ⟨r, fired, hstep, _⟩ := step_receipt b s a
      rw [hstep]
      rfl
    | flowControl => exact (List.append_nil _).symm
    | raises message => exact (List.append_nil _).symm
  | settle i o => exact (admissions_settle b s i o).trans (List.append_nil _).symm
  | turn =>
    have hturn : s.turn.admissions = s.admissions := by
      unfold MqttiumAsync.turn
      rw [foldl_complete]
    exact hturn.trans (List.append_nil _).symm

theorem admissions_run (b : Build) (events : List ReceiptEvent) :
    (run b events).admissions = admitted events := by
  have hfold : ∀ (events : List ReceiptEvent) (s : MqttiumAsync),
      (events.foldl (MqttiumAsync.step b) s).admissions = s.admissions ++ admitted events := by
    intro events
    induction events with
    | nil => exact fun s => (List.append_nil _).symm
    | cons event events ih =>
      intro s
      have hcons : admitted (event :: events) = admitted [event] ++ admitted events := by
        unfold admitted
        rw [← List.filterMap_append]
        rfl
      rw [List.foldl_cons, ih, admissions_step, hcons, List.append_assoc]
  exact hfold events .init

/-- **When the outcome of a publish does not depend on the moment its receipt settles**: in a
run, every publish accepted is relayed exactly when no receipt is found settled with an error
and no waiter is added to a settled receipt. -/
theorem relays_outcomes_iff (b : Build) (events : List ReceiptEvent) :
    (∀ i < (admitted events).length, Relayed (run b events) i) ↔
      ∀ a ∈ admitted events, a.Kept b := by
  have heach : ∀ i a, (admitted events)[i]? = some a →
      (Relayed (run b events) i ↔ a.Kept b) := by
    intro i a ha
    rw [← admissions_run b] at ha
    exact ((tracks_run b events).each i a ha).relayed_iff
  constructor
  · intro h a ha
    obtain ⟨i, hi, rfl⟩ := List.mem_iff_getElem.1 ha
    exact (heach i _ (List.getElem?_eq_getElem hi)).1 (h i hi)
  · intro h i hi
    exact (heach i _ (List.getElem?_eq_getElem hi)).2 (h _ (List.getElem_mem hi))

/-- A receipt that has ended in an error when `publish_nowait` returns it. -/
theorem not_relayed_early_error : ¬ Relayed
    (run ⟨true, true, false⟩ [.publish (.receipt ⟨some .error, none⟩)]) 0 := by
  rintro ⟨_, hrelayed⟩
  exact absurd (hrelayed .error rfl rfl) (by decide)

end Adapters
