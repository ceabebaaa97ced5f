import Mathlib

/-!
# The gmqtt adapter

`publish_nowait` and the acknowledgement hook `_remove_and_ack` of
`adapters/gmqtt_async.py`.  The library is outside: what it does in a call is the call's
`Answer`.  `on_publish` is set, as the drive loops set it before the first call.

* `publishNowait`, `removeAndAck` — the program.
* `publishNowait_cases` — what a call can do: complete at once, register, or fail.
-/

namespace Adapters

/-! ## The program -/

/-- The adapter's `_next_mid` and `_real_to_synth`. -/
structure GmqttAsync where
  nextMid : ℕ
  realToSynth : ℕ → Option ℕ

/-- `GmqttAsyncAdapter()`. -/
def GmqttAsync.init : GmqttAsync := ⟨0, fun _ => none⟩

/-- `_alloc_mid`. -/
def allocMid (nextMid : ℕ) : ℕ := if 65535 ≤ nextMid then 1 else nextMid + 1

/-- What becomes of the push to the persistent storage. -/
inductive Push
  | stored
  | raises
  /-- The storage has no `push_message_nowait`. -/
  | missing
  deriving DecidableEq

/-- What the library does in a call: `publish` raises, or it returns no packet id, or it
returns one and the storage is pushed. -/
inductive Answer
  | raises
  | unnumbered
  | numbered (realMid : ℕ) (push : Push)
  deriving DecidableEq

/-- A call of `publish_nowait`. -/
structure Call where
  qos : ℕ
  answer : Answer
  deriving DecidableEq

/-- The `mid` and the reason code that `on_publish` is called with. -/
structure Fired where
  mid : ℕ
  reasonCode : ℕ
  deriving DecidableEq

/-- `publish_nowait`: the adapter, the call of `on_publish` if there is one, and what is
returned. -/
def publishNowait (a : GmqttAsync) (c : Call) : GmqttAsync × Option Fired × Option ℕ :=
  let mid := allocMid a.nextMid
  let a := { a with nextMid := mid }
  if c.qos = 0 then
    match c.answer with
    | .raises => (a, some ⟨mid, 128⟩, none)
    | _ => (a, some ⟨mid, 0⟩, some mid)
  else
    match c.answer with
    | .raises => (a, some ⟨mid, 128⟩, none)
    | .unnumbered => (a, some ⟨mid, 0⟩, some mid)
    | .numbered realMid push =>
      let a := { a with realToSynth := Function.update a.realToSynth realMid (some mid) }
      match push with
      | .stored => (a, none, some mid)
      | _ =>
        ({ a with realToSynth := Function.update a.realToSynth realMid none },
          some ⟨mid, 128⟩, none)

/-- `_remove_and_ack`: the adapter and the call of `on_publish`. -/
def removeAndAck (a : GmqttAsync) (mid : ℕ) : GmqttAsync × Fired :=
  let synth := a.realToSynth mid
  ({ a with realToSynth := Function.update a.realToSynth mid none },
    ⟨synth.getD mid, 0⟩)

/-! ## What a call can do -/

/-- The library publishes nothing, or the storage does not take the message. -/
def Call.Fails (c : Call) : Prop :=
  c.answer = .raises ∨ c.qos ≠ 0 ∧ ∃ realMid push, push ≠ .stored ∧
    c.answer = .numbered realMid push

/-- The packet id of the message that goes on the wire, stored or not. -/
def Call.realMid (c : Call) : Option ℕ :=
  if c.qos = 0 then none
  else match c.answer with
    | .numbered realMid _ => some realMid
    | _ => none

/-- What a call can do: it fails, with a reason code, it completes at once, or it registers
the packet id. -/
theorem publishNowait_cases (a : GmqttAsync) (c : Call) :
    let mid := allocMid a.nextMid
    (c.Fails ∧ (publishNowait a c).2 = (some ⟨mid, 128⟩, none) ∧
        ∀ p, (publishNowait a c).1.realToSynth p =
          if c.realMid = some p then none else a.realToSynth p) ∨
      (¬ c.Fails ∧ c.realMid = none ∧ (publishNowait a c).2 = (some ⟨mid, 0⟩, some mid) ∧
        (publishNowait a c).1.realToSynth = a.realToSynth) ∨
      (¬ c.Fails ∧ ∃ realMid, c.realMid = some realMid ∧
        (publishNowait a c).2 = (none, some mid) ∧ (publishNowait a c).1.realToSynth =
          Function.update a.realToSynth realMid (some mid)) := by
  obtain ⟨qos, answer⟩ := c
  by_cases hq : qos = 0
  · cases answer with
    | raises =>
      exact .inl ⟨.inl rfl, by simp [publishNowait, hq], by simp [publishNowait, hq, Call.realMid]⟩
    | unnumbered | numbered realMid push =>
      exact .inr (.inl ⟨by simp [Call.Fails, hq], by simp [Call.realMid, hq],
        by simp [publishNowait, hq], by simp [publishNowait, hq]⟩)
  · cases answer with
    | raises =>
      exact .inl ⟨.inl rfl, by simp [publishNowait, hq], by simp [publishNowait, hq, Call.realMid]⟩
    | unnumbered =>
      exact .inr (.inl ⟨by simp [Call.Fails], by simp [Call.realMid],
        by simp [publishNowait, hq], by simp [publishNowait, hq]⟩)
    | numbered realMid push =>
      have hreal : (Call.mk qos (.numbered realMid push)).realMid = some realMid := by
        simp [Call.realMid, hq]
      by_cases hpush : push = .stored
      · refine .inr (.inr ⟨by simp [Call.Fails, hpush], realMid, hreal, ?_, ?_⟩) <;>
          simp [publishNowait, hq, hpush]
      · -- the entry made for the push is taken back
        refine .inl ⟨.inr ⟨hq, realMid, push, hpush, rfl⟩, ?_, ?_⟩
        · cases push <;> simp_all [publishNowait]
        · intro p
          rw [hreal]
          by_cases hp : p = realMid
          · cases push <;> simp_all [publishNowait]
          · have hp' : realMid ≠ p := fun h => hp h.symm
            cases push <;> simp_all [publishNowait]

/-- Whether a call fails is decided by what the library does. -/
instance (c : Call) : Decidable c.Fails :=
  match hq : c.qos, ha : c.answer with
  | _, .raises => isTrue (.inl ha)
  | _, .unnumbered => isFalse (by simp [Call.Fails, ha])
  | 0, .numbered _ _ => isFalse (by simp [Call.Fails, ha, hq])
  | _ + 1, .numbered _ .stored => isFalse (by simp [Call.Fails, ha])
  | _ + 1, .numbered realMid .raises =>
    isTrue (.inr ⟨by simp [hq], realMid, .raises, by decide, ha⟩)
  | _ + 1, .numbered realMid .missing =>
    isTrue (.inr ⟨by simp [hq], realMid, .missing, by decide, ha⟩)

end Adapters
