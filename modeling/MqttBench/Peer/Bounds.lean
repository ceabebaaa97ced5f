import MqttBench.Lib.Watched
import MqttBench.Peer.Publish

/-!
# What parsing a PUBLISH reads

`parse_publish`, `get_varint` and `has_user_property` of `mqtt_peer.c` again, with every
read of the body and every subtraction watched.

* `watchedParsePublish_val` — the watched parser returns what the parser returns.
* `within_watchedGetVarint`, `within_watchedHasUserProperty` — both read inside the range
  they are given.
* `parsePublish_inside_iff` — **the parser stays inside the packet, unless an MQTT 5 PUBLISH
  of QoS 0 has a topic longer than its body.**
-/

namespace Peer

open Watched

/-! ## The program, watched -/

/-- The loop of `get_varint(body + base, len, &used)`. -/
def watchedGetVarintLoop (body : List UInt8) (base : ℕ) :
    ℕ → ℕ → ℕ → ℕ → ℕ → Watched (ℕ × ℕ)
  | 0, _, i, value, _ => pure (value, i)
  | fuel + 1, len, i, value, mul =>
    if i < len ∧ i < 4 then do
      let byte ← peek body (base + i)
      let value := value + (byte &&& 0x7f).toNat * mul
      if byte &&& 0x80 = 0 then pure (value, i + 1)
      else watchedGetVarintLoop body base fuel len (i + 1) value (mul * 128)
    else pure (value, i)

/-- `get_varint(body + base, len, &used)`. -/
def watchedGetVarint (body : List UInt8) (base len : ℕ) : Watched (ℕ × ℕ) :=
  watchedGetVarintLoop body base 4 len 0 0 1

/-- The loop of `has_user_property(body + base, n)`. -/
def watchedHasUserPropertyLoop (body : List UInt8) (base n : ℕ) : ℕ → ℕ → Watched Bool
  | 0, _ => pure false
  | fuel + 1, i =>
    if i < n then do
      let id ← peek body (base + i)
      match id with
      | 0x01 => watchedHasUserPropertyLoop body base n fuel (i + 1 + 1)
      | 0x23 => watchedHasUserPropertyLoop body base n fuel (i + 1 + 2)
      | 0x02 => watchedHasUserPropertyLoop body base n fuel (i + 1 + 4)
      | 0x0B =>
        let left ← sub 32 n (i + 1)
        let skip ← watchedGetVarint body (base + (i + 1)) left
        watchedHasUserPropertyLoop body base n fuel (i + 1 + skip.2)
      | 0x03 | 0x08 | 0x09 =>
        if n < i + 1 + 2 then pure false
        else do
          let hi ← peek body (base + (i + 1))
          let lo ← peek body (base + (i + 2))
          watchedHasUserPropertyLoop body base n fuel (i + 1 + (2 + (read16 hi lo).toNat))
      | 0x26 => pure true
      | _ => pure false
    else pure false

/-- `has_user_property(body + base, n)`. -/
def watchedHasUserProperty (body : List UInt8) (base n : ℕ) : Watched Bool :=
  watchedHasUserPropertyLoop body base n n 0

/-- The first half of `parse_publish`. -/
def watchedPublishHead (hdr : UInt8) (body : List UInt8) (len : ℕ) :
    Watched (Option (UInt16 × ℕ)) :=
  if len < 2 then pure none
  else do
    let hi ← peek body 0
    let lo ← peek body 1
    let off := 2 + (read16 hi lo).toNat
    if qosOf hdr = 0 then pure (some (0, off))
    else if len < off + 2 then pure none
    else do
      let hi ← peek body off
      let lo ← peek body (off + 1)
      pure (some (read16 hi lo, off + 2))

/-- The `if (g_v5)` of `parse_publish`. -/
def watchedPublishProps (v5 : Bool) (body : List UInt8) (len off : ℕ) :
    Watched (Option (ℕ × Bool)) :=
  if v5 then do
    let left ← sub 32 len off
    let props ← watchedGetVarint body off left
    if len < off + props.2 + props.1 then pure none
    else do
      let seen ← (if props.1 ≠ 0 then watchedHasUserProperty body (off + props.2) props.1
        else pure false)
      pure (some (off + props.2 + props.1, seen))
  else pure (some (off, false))

/-- `parse_publish(hdr, body, len, ...)`. -/
def watchedParsePublish (v5 : Bool) (hdr : UInt8) (body : List UInt8) (len : ℕ) :
    Watched (Option Inbound) := do
  let head ← watchedPublishHead hdr body len
  match head with
  | none => pure none
  | some (pid, off) =>
    let props ← watchedPublishProps v5 body len off
    match props with
    | none => pure none
    | some (off, propsSeen) =>
      if len < off then pure none
      else do
        let plen ← sub 32 len off
        pure (some { qos := qosOf hdr, pid := pid, payload := body.drop off, plen := plen,
                     propsSeen := propsSeen })

/-! ## It is the same program -/

theorem getD_eq_headD_drop (body : List UInt8) (i : ℕ) : body.getD i 0 = (body.drop i).headD 0 := by
  rw [List.headD_eq_head?_getD, List.head?_drop, List.getD_eq_getElem?_getD]

theorem watchedGetVarintLoop_val (body : List UInt8) (base fuel len i value mul : ℕ) :
    (watchedGetVarintLoop body base fuel len i value mul).val =
      getVarintLoop fuel (body.drop (base + i)) len i value mul := by
  induction fuel generalizing i value mul with
  | zero => rfl
  | succ fuel ih =>
    have htail : (body.drop (base + i)).tail = body.drop (base + (i + 1)) := by
      rw [List.tail_drop, Nat.add_assoc]
    rw [watchedGetVarintLoop, getVarintLoop, htail, ← getD_eq_headD_drop]
    by_cases hi : i < len ∧ i < 4
    · rw [if_pos hi, if_pos hi, val_bind, val_peek]
      by_cases hlast : body.getD (base + i) 0 &&& 0x80 = 0
      · exact (congrArg val (if_pos hlast)).trans (if_pos hlast).symm
      · exact (congrArg val (if_neg hlast)).trans ((ih _ _ _).trans (if_neg hlast).symm)
    · rw [if_neg hi, if_neg hi, val_pure]

theorem watchedGetVarint_val (body : List UInt8) (base len : ℕ) :
    (watchedGetVarint body base len).val = getVarint (body.drop base) len :=
  watchedGetVarintLoop_val body base 4 len 0 0 1

theorem getD_drop (body : List UInt8) (base i : ℕ) :
    (body.drop base).getD i 0 = body.getD (base + i) 0 := by
  rw [List.getD_eq_getElem?_getD, List.getElem?_drop, List.getD_eq_getElem?_getD]

theorem watchedHasUserPropertyLoop_val (body : List UInt8) (base n fuel i : ℕ) :
    (watchedHasUserPropertyLoop body base n fuel i).val =
      hasUserPropertyLoop (body.drop base) n fuel i := by
  induction fuel generalizing i with
  | zero => rfl
  | succ fuel ih =>
    rw [watchedHasUserPropertyLoop, hasUserPropertyLoop]
    by_cases hi : i < n
    · have hskip : (watchedGetVarint body (base + (i + 1)) (n - (i + 1))).val
          = getVarint ((body.drop base).drop (i + 1)) (n - (i + 1)) := by
        rw [watchedGetVarint_val, List.drop_drop]
      have hsub : (sub 32 n (i + 1)).val = n - (i + 1) := val_sub_of_le (by omega)
      have hprefixed : (if n < i + 1 + 2 then pure false else do
          let hi ← peek body (base + (i + 1))
          let lo ← peek body (base + (i + 2))
          watchedHasUserPropertyLoop body base n fuel (i + 1 + (2 + (read16 hi lo).toNat))).val
          = if n < i + 1 + 2 then false else hasUserPropertyLoop (body.drop base) n fuel
            (i + 1 + (2 + (read16 (body.getD (base + (i + 1)) 0)
              (body.getD (base + (i + 2)) 0)).toNat)) := by
        rw [val_ite]
        exact if_congr Iff.rfl rfl (ih _)
      rw [if_pos hi, if_pos hi, val_bind, val_peek, show (default : UInt8) = 0 from rfl]
      simp only [getD_drop]
      generalize body.getD (base + i) 0 = id
      split
      · exact ih _
      · exact ih _
      · exact ih _
      · rw [val_bind, val_bind, hsub, hskip]
        exact ih _
      · exact hprefixed
      · exact hprefixed
      · exact hprefixed
      · rfl
      · -- no other identifier is known
        simp_all
    · rw [if_neg hi, if_neg hi, val_pure]

theorem watchedHasUserProperty_val (body : List UInt8) (base n : ℕ) :
    (watchedHasUserProperty body base n).val = hasUserProperty (body.drop base) n :=
  watchedHasUserPropertyLoop_val body base n n 0

theorem watchedPublishHead_val (hdr : UInt8) (body : List UInt8) (len : ℕ) :
    (watchedPublishHead hdr body len).val = publishHead hdr body len := by
  unfold watchedPublishHead publishHead
  by_cases h2 : len < 2
  · rw [if_pos h2, if_pos h2, val_pure]
  · rw [if_neg h2, if_neg h2, val_bind, val_bind, val_peek, val_peek,
      show (default : UInt8) = 0 from rfl]
    simp only
    by_cases hq : qosOf hdr = 0
    · rw [if_pos hq, if_pos hq, val_pure]
    · rw [if_neg hq, if_neg hq, val_ite]
      rfl

theorem watchedPublishProps_val (v5 : Bool) (body : List UInt8) (len off : ℕ) :
    (watchedPublishProps v5 body len off).val = publishProps v5 body len off := by
  unfold watchedPublishProps publishProps
  cases v5 with
  | false => rfl
  | true =>
    simp only [if_true]
    rw [val_bind, val_bind, watchedGetVarint_val,
      show (sub 32 len off).val = sub32 len off from rfl]
    generalize getVarint (body.drop off) (sub32 len off) = props
    obtain ⟨plen, used⟩ := props
    simp only
    by_cases hfit : len < off + used + plen
    · rw [if_pos hfit, if_pos hfit, val_pure]
    · rw [if_neg hfit, if_neg hfit, val_bind, val_pure, val_ite, watchedHasUserProperty_val,
        val_pure]
      by_cases hzero : plen = 0 <;> simp [hzero]

/-- **The watched parser returns what the parser returns.** -/
theorem watchedParsePublish_val (v5 : Bool) (hdr : UInt8) (body : List UInt8) (len : ℕ) :
    (watchedParsePublish v5 hdr body len).val = parsePublish v5 hdr body len := by
  rw [watchedParsePublish, parsePublish, val_bind, watchedPublishHead_val]
  cases publishHead hdr body len with
  | none => rfl
  | some head =>
    obtain ⟨pid, off⟩ := head
    simp only [Option.bind_eq_bind, Option.bind_some]
    rw [val_bind, watchedPublishProps_val]
    cases publishProps v5 body len off with
    | none => rfl
    | some props =>
      obtain ⟨off', seen⟩ := props
      simp only [Option.bind_some]
      by_cases hoff : len < off'
      · rw [if_pos hoff, if_pos hoff, val_pure]
      · rw [if_neg hoff, if_neg hoff, val_bind, val_sub_of_le (by omega), val_pure]

/-! ## What it reads -/

/-- `get_varint` reads inside the range it is given. -/
theorem within_watchedGetVarintLoop {body : List UInt8} {base n fuel len i value mul : ℕ}
    (h : base + len ≤ n) : Within n (watchedGetVarintLoop body base fuel len i value mul) := by
  induction fuel generalizing i value mul with
  | zero => exact within_pure _
  | succ fuel ih =>
    rw [watchedGetVarintLoop, within_ite]
    refine ⟨?_, fun _ => within_pure _⟩
    intro hi
    rw [within_bind, within_peek]
    refine ⟨by omega, ?_⟩
    simp only
    rw [within_ite]
    exact ⟨fun _ => within_pure _, fun _ => ih⟩

theorem within_watchedGetVarint {body : List UInt8} {base n len : ℕ} (h : base + len ≤ n) :
    Within n (watchedGetVarint body base len) := within_watchedGetVarintLoop h

/-- `has_user_property` reads inside the range it is given. -/
theorem within_watchedHasUserPropertyLoop {body : List UInt8} {base n len fuel i : ℕ}
    (h : base + len ≤ n) : Within n (watchedHasUserPropertyLoop body base len fuel i) := by
  induction fuel generalizing i with
  | zero => exact within_pure _
  | succ fuel ih =>
    rw [watchedHasUserPropertyLoop, within_ite]
    refine ⟨?_, fun _ => within_pure _⟩
    intro hi
    have hprefixed : Within n (if len < i + 1 + 2 then pure false else do
        let hi ← peek body (base + (i + 1))
        let lo ← peek body (base + (i + 2))
        watchedHasUserPropertyLoop body base len fuel (i + 1 + (2 + (read16 hi lo).toNat))) := by
      rw [within_ite]
      refine ⟨fun _ => within_pure _, ?_⟩
      intro hfit
      rw [within_bind, within_peek, within_bind, within_peek]
      exact ⟨by omega, by omega, ih⟩
    rw [within_bind, within_peek]
    refine ⟨by omega, ?_⟩
    split
    · exact ih
    · exact ih
    · exact ih
    · rw [within_bind, within_sub, within_bind, val_sub_of_le (by omega)]
      exact ⟨by omega, within_watchedGetVarint (by omega), ih⟩
    · exact hprefixed
    · exact hprefixed
    · exact hprefixed
    · exact within_pure _
    · exact within_pure _

theorem within_watchedHasUserProperty {body : List UInt8} {base n len : ℕ} (h : base + len ≤ n) :
    Within n (watchedHasUserProperty body base len) := within_watchedHasUserPropertyLoop h

/-- The first half reads inside the packet, and ends inside it unless the QoS is 0. -/
theorem within_watchedPublishHead (hdr : UInt8) (body : List UInt8) (len : ℕ) :
    Within len (watchedPublishHead hdr body len) := by
  rw [watchedPublishHead, within_ite]
  refine ⟨fun _ => within_pure _, ?_⟩
  intro h2
  rw [within_bind, within_peek, within_bind, within_peek]
  refine ⟨by omega, by omega, ?_⟩
  simp only
  rw [within_ite]
  refine ⟨fun _ => within_pure _, ?_⟩
  intro _
  rw [within_ite]
  refine ⟨fun _ => within_pure _, ?_⟩
  intro hlen
  rw [within_bind, within_peek, within_bind, within_peek]
  exact ⟨by omega, by omega, within_pure _⟩

/-- The properties are read inside the packet exactly when they begin there. -/
theorem within_watchedPublishProps_iff (v5 : Bool) (body : List UInt8) (len off : ℕ) :
    Within len (watchedPublishProps v5 body len off) ↔ (v5 = true → off ≤ len) := by
  rw [watchedPublishProps, within_ite]
  cases v5 with
  | false => simp
  | true =>
    simp only [forall_const, not_true, false_implies, and_true]
    rw [within_bind, within_sub]
    apply and_iff_left_of_imp
    intro hoff
    rw [within_bind, val_sub_of_le hoff]
    refine ⟨within_watchedGetVarint (by omega), ?_⟩
    rw [within_ite]
    refine ⟨fun _ => within_pure _, ?_⟩
    intro hfit
    rw [within_bind, within_ite]
    exact ⟨⟨fun _ => within_watchedHasUserProperty (by omega), fun _ => within_pure _⟩,
      within_pure _⟩

/-- **The parser reads inside the packet exactly when MQTT 5 properties, if there are any,
begin there.** -/
theorem within_watchedParsePublish_iff (v5 : Bool) (hdr : UInt8) (body : List UInt8) (len : ℕ) :
    Within len (watchedParsePublish v5 hdr body len) ↔
      ∀ pid off, publishHead hdr body len = some (pid, off) → v5 = true → off ≤ len := by
  rw [watchedParsePublish, within_bind, and_iff_right (within_watchedPublishHead hdr body len),
    watchedPublishHead_val]
  cases publishHead hdr body len with
  | none => exact iff_of_true (within_pure _) fun pid off h => by cases h
  | some head =>
    obtain ⟨pid, off⟩ := head
    have hrest : ∀ props : Option (ℕ × Bool), Within len (match props with
        | none => pure none
        | some (off, propsSeen) =>
          if len < off then pure none
          else do
            let plen ← sub 32 len off
            pure (some { qos := qosOf hdr, pid := pid, payload := body.drop off, plen := plen,
                         propsSeen := propsSeen } : Option Inbound)) := by
      intro props
      cases props with
      | none => exact within_pure _
      | some props =>
        simp only
        rw [within_ite]
        refine ⟨fun _ => within_pure _, ?_⟩
        intro hoff
        rw [within_bind, within_sub]
        exact ⟨by omega, within_pure _⟩
    simp only
    rw [within_bind, within_watchedPublishProps_iff, and_iff_left (hrest _)]
    constructor
    · intro h pid' off' heq
      obtain ⟨-, rfl⟩ := Prod.mk.inj (Option.some.inj heq)
      exact h
    · intro h
      exact h pid off rfl

/-- A topic that does not fit, at QoS 0: nothing has been checked behind it. -/
theorem publishHead_outside_iff (hdr : UInt8) (body : List UInt8) (len : ℕ) :
    (∃ pid off, publishHead hdr body len = some (pid, off) ∧ len < off) ↔
      qosOf hdr = 0 ∧ 2 ≤ len ∧ len < 2 + (read16 (body.getD 0 0) (body.getD 1 0)).toNat := by
  unfold publishHead
  by_cases h2 : len < 2
  · simp only [if_pos h2]
    refine iff_of_false ?_ (by omega)
    rintro ⟨pid, off, h, -⟩
    cases h
  · simp only [if_neg h2]
    by_cases hq : qosOf hdr = 0
    · simp only [if_pos hq, Option.some.injEq, Prod.mk.injEq]
      constructor
      · rintro ⟨pid, off, ⟨-, rfl⟩, hlt⟩
        exact ⟨hq, by omega, hlt⟩
      · rintro ⟨-, -, hlt⟩
        exact ⟨0, _, ⟨rfl, rfl⟩, hlt⟩
    · simp only [if_neg hq]
      refine iff_of_false ?_ fun h => hq h.1
      rintro ⟨pid, off, h, hlt⟩
      split at h
      · cases h
      · obtain ⟨-, rfl⟩ := Prod.mk.inj (Option.some.inj h)
        omega

/-- What is returned lies inside the packet. -/
theorem parsePublish_payload {v5 : Bool} {hdr : UInt8} {body : List UInt8} {len : ℕ} {i : Inbound}
    (h : parsePublish v5 hdr body len = some i) :
    ∃ off, i.payload = body.drop off ∧ off + i.plen = len := by
  simp only [parsePublish, Option.bind_eq_bind, Option.bind_eq_some_iff, Prod.exists] at h
  obtain ⟨pid, off, -, off', seen, -, h⟩ := h
  split at h
  · cases h
  · obtain rfl := Option.some.inj h
    exact ⟨off', rfl, by simp only; omega⟩

/-- `parse_publish` stays inside a packet. -/
structure StaysInside (v5 : Bool) (pk : Packet) : Prop where
  /-- It reads no byte at or behind `len`, and no subtraction wraps. -/
  within : Within pk.len (watchedParsePublish v5 pk.hdr pk.mem pk.len)
  /-- The payload that it returns, if any, is part of the body. -/
  payload : ∀ i, (watchedParsePublish v5 pk.hdr pk.mem pk.len).val = some i →
    ∃ off, i.payload = pk.mem.drop off ∧ off + i.plen ≤ pk.len

/-- **`parse_publish` stays inside the packet exactly when it is not an MQTT 5 PUBLISH of
QoS 0 whose topic is longer than the body.** -/
theorem parsePublish_inside_iff (v5 : Bool) (pk : Packet) :
    (watchedParsePublish v5 pk.hdr pk.mem pk.len).val = parsePublish v5 pk.hdr pk.mem pk.len ∧
      (StaysInside v5 pk ↔
        ¬ (v5 = true ∧ qosOf pk.hdr = 0 ∧ 2 ≤ pk.len ∧
          pk.len < 2 + (read16 (pk.mem.getD 0 0) (pk.mem.getD 1 0)).toNat)) := by
  have hval := watchedParsePublish_val v5 pk.hdr pk.mem pk.len
  have hpayload : ∀ i, (watchedParsePublish v5 pk.hdr pk.mem pk.len).val = some i →
      ∃ off, i.payload = pk.mem.drop off ∧ off + i.plen ≤ pk.len := by
    intro i hi
    rw [hval] at hi
    obtain ⟨off, hoff, hlen⟩ := parsePublish_payload hi
    exact ⟨off, hoff, hlen.le⟩
  have hwithin : StaysInside v5 pk ↔
      ∀ pid off, publishHead pk.hdr pk.mem pk.len = some (pid, off) → v5 = true → off ≤ pk.len := by
    rw [← within_watchedParsePublish_iff]
    exact ⟨StaysInside.within, fun h => ⟨h, hpayload⟩⟩
  refine ⟨hval, ?_⟩
  rw [hwithin, ← publishHead_outside_iff]
  constructor
  · rintro h ⟨hv5, pid, off, hhead, hlt⟩
    have := h pid off hhead hv5
    omega
  · intro h pid off hhead hv5
    by_contra hlt
    exact h ⟨hv5, pid, off, hhead, not_le.1 hlt⟩

/-- A broker sends an MQTT 5 PUBLISH of QoS 0 with a body of three bytes, whose topic claims
five.  The parser looks for the property length at byte 7. -/
theorem parsePublish_inside_counterexample :
    ∃ b' pk, nextPacket ((Rbuf.init 16 (by decide)).recv [0x30, 3, 0, 5, 0x61])
        = (b', .packet pk) ∧ pk.len = 3 ∧
      (watchedParsePublish true pk.hdr pk.mem pk.len).reads = [0, 1, 7] ∧
      (watchedParsePublish true pk.hdr pk.mem pk.len).wrapped = true ∧
      ¬ StaysInside true pk := by
  refine ⟨_, _, rfl, rfl, by decide +kernel, by decide +kernel, ?_⟩
  intro h
  have hreads := h.within.reads 7 (by decide +kernel)
  exact absurd hreads (by decide)

end Peer
