import MqttBench.Peer.Rbuf

/-!
# Reading an inbound PUBLISH

`parse_publish` and `has_user_property` of `mqtt_peer.c`, and the layout of a PUBLISH
that they are meant to read.

* `IsPublish` — the layout, and `readPublish` the reader that accepts exactly it
  (`readPublish_eq_some_iff`).
* `parsePublish_view` — `parse_publish` depends on the bytes of the packet only, not on
  the memory behind it: it is `acceptPublish` on the body.
* `acceptPublish_eq` — what it accepts is read as the layout says, unless the property
  length is `Cut`; and then it is accepted all the same (`acceptPublish_of_cut`).
-/

namespace Peer

open Base128

/-! ## Two-byte integers -/

/-- `(uint16_t)(p[0] << 8 | p[1])`. -/
def read16 (hi lo : UInt8) : UInt16 := hi.toUInt16 <<< 8 ||| lo.toUInt16

/-- `(uint8_t)(v >> 8), (uint8_t)v`. -/
def put16 (v : UInt16) : List UInt8 := [(v >>> 8).toUInt8, v.toUInt8]

@[simp] theorem length_put16 (v : UInt16) : (put16 v).length = 2 := rfl

theorem toNat_read16 (hi lo : UInt8) : (read16 hi lo).toNat = hi.toNat * 256 + lo.toNat := by
  have hhi := hi.toNat_lt
  have hlo := lo.toNat_lt
  have hor := Nat.two_pow_add_eq_or_of_lt (i := 8) (b := lo.toNat) (by omega) hi.toNat
  rw [read16, UInt16.toNat_or, UInt16.toNat_shiftLeft, UInt8.toNat_toUInt16, UInt8.toNat_toUInt16,
    Nat.shiftLeft_eq]
  rw [show (8 : UInt16).toNat % 16 = 8 from rfl, Nat.mod_eq_of_lt (by omega), Nat.mul_comm, ← hor]

@[simp] theorem read16_put16 (v : UInt16) : read16 (v >>> 8).toUInt8 v.toUInt8 = v := by
  have hv := v.toNat_lt
  rw [← UInt16.toNat_inj, toNat_read16, UInt16.toNat_toUInt8, UInt16.toNat_toUInt8,
    UInt16.toNat_shiftRight, Nat.shiftRight_eq_div_pow, show (8 : UInt16).toNat % 16 = 8 from rfl]
  omega

@[simp] theorem put16_read16 (hi lo : UInt8) : put16 (read16 hi lo) = [hi, lo] := by
  have hhi := hi.toNat_lt
  have hlo := lo.toNat_lt
  rw [put16, List.cons.injEq, List.cons.injEq]
  refine ⟨?_, ?_, rfl⟩
  · rw [← UInt8.toNat_inj, UInt16.toNat_toUInt8, UInt16.toNat_shiftRight, toNat_read16,
      Nat.shiftRight_eq_div_pow, show (8 : UInt16).toNat % 16 = 8 from rfl]
    omega
  · rw [← UInt8.toNat_inj, UInt16.toNat_toUInt8, toNat_read16]
    omega

/-! ## The source's parser -/

/-- The loop of `has_user_property` from byte `i`; every round consumes an identifier,
so `n` rounds are fuel enough. -/
def hasUserPropertyLoop (p : List UInt8) (n : ℕ) : ℕ → ℕ → Bool
  | 0, _ => false
  | fuel + 1, i =>
    if i < n then
      match p.getD i 0 with
      | 0x01 => hasUserPropertyLoop p n fuel (i + 1 + 1)
      | 0x23 => hasUserPropertyLoop p n fuel (i + 1 + 2)
      | 0x02 => hasUserPropertyLoop p n fuel (i + 1 + 4)
      | 0x0B =>
        hasUserPropertyLoop p n fuel (i + 1 + (getVarint (p.drop (i + 1)) (n - (i + 1))).2)
      | 0x03 | 0x08 | 0x09 =>
        if n < i + 1 + 2 then false
        else
          hasUserPropertyLoop p n fuel
            (i + 1 + (2 + (read16 (p.getD (i + 1) 0) (p.getD (i + 2) 0)).toNat))
      | 0x26 => true
      | _ => false
    else false

/-- `has_user_property(p, n)`. -/
def hasUserProperty (p : List UInt8) (n : ℕ) : Bool := hasUserPropertyLoop p n n 0

/-- `(hdr >> 1) & 3`. -/
def qosOf (hdr : UInt8) : ℕ := ((hdr >>> 1) &&& 3).toNat

/-- The first half of `parse_publish`: the packet id and the offset behind it. -/
def publishHead (hdr : UInt8) (body : List UInt8) (len : ℕ) : Option (UInt16 × ℕ) :=
  if len < 2 then none
  else
    let off := 2 + (read16 (body.getD 0 0) (body.getD 1 0)).toNat
    if qosOf hdr = 0 then some (0, off)
    else if len < off + 2 then none
    else some (read16 (body.getD off 0) (body.getD (off + 1) 0), off + 2)

/-- The difference of two `uint32_t`, which wraps. -/
def sub32 (a b : ℕ) : ℕ := if b ≤ a then a - b else 2 ^ 32 - (b - a)

theorem sub32_of_le {a b : ℕ} (h : b ≤ a) : sub32 a b = a - b := if_pos h

/-- The `if (g_v5)` of `parse_publish`: the offset behind the properties, and whether
`c_props_seen` is incremented. -/
def publishProps (v5 : Bool) (body : List UInt8) (len off : ℕ) : Option (ℕ × Bool) :=
  if v5 then
    let (plen, used) := getVarint (body.drop off) (sub32 len off)
    if len < off + used + plen then none
    else some (off + used + plen, plen ≠ 0 && hasUserProperty (body.drop (off + used)) plen)
  else some (off, false)

/-- What `parse_publish` returns when it does not return -1. -/
structure Inbound where
  qos : ℕ
  pid : UInt16
  /-- The memory from `*payload` on. -/
  payload : List UInt8
  plen : ℕ
  /-- Whether `c_props_seen` was incremented. -/
  propsSeen : Bool

/-- The payload's own bytes. -/
def Inbound.bytes (i : Inbound) : List UInt8 := i.payload.take i.plen

/-- `parse_publish(hdr, body, len, ...)`; `none` is -1. -/
def parsePublish (v5 : Bool) (hdr : UInt8) (body : List UInt8) (len : ℕ) : Option Inbound := do
  let (pid, off) ← publishHead hdr body len
  let (off, propsSeen) ← publishProps v5 body len off
  if len < off then none
  else
    some { qos := qosOf hdr, pid := pid, payload := body.drop off, plen := len - off,
           propsSeen := propsSeen }

/-! ## The layout -/

/-- A two-byte integer, and what follows it. -/
def readTwo : List UInt8 → Option (UInt16 × List UInt8)
  | hi :: lo :: rest => some (read16 hi lo, rest)
  | _ => none

/-- The topic name, and what follows it. -/
def readTopic (xs : List UInt8) : Option (List UInt8 × List UInt8) := do
  let (n, rest) ← readTwo xs
  if n.toNat ≤ rest.length then some (rest.take n.toNat, rest.drop n.toNat) else none

/-- The packet id, which a PUBLISH has above QoS 0. -/
def readPid (qos : ℕ) (xs : List UInt8) : Option (UInt16 × List UInt8) :=
  if qos = 0 then some (0, xs) else readTwo xs

/-- The payload behind the properties, which MQTT 5 has. -/
def readProps (v5 : Bool) (xs : List UInt8) : Option (List UInt8) :=
  if v5 then
    match decode 4 xs with
    | some (n, rest) => if n ≤ rest.length then some (rest.drop n) else none
    | none => none
  else some xs

/-- Read a PUBLISH body: its packet id and its payload. -/
def readPublish (v5 : Bool) (qos : ℕ) (body : List UInt8) : Option (UInt16 × List UInt8) := do
  let (_, rest) ← readTopic body
  let (pid, rest) ← readPid qos rest
  let payload ← readProps v5 rest
  some (pid, payload)

/-- **The layout of a PUBLISH**: topic name, packet id above QoS 0, properties in
MQTT 5, payload.  The names, ids and properties themselves are not looked at. -/
structure IsPublish (v5 : Bool) (qos : ℕ) (body : List UInt8) (pid : UInt16)
    (payload : List UInt8) : Prop where
  layout : ∃ (topicLen : UInt16) (topic id props : List UInt8),
    body = put16 topicLen ++ topic ++ id ++ props ++ payload ∧ topic.length = topicLen.toNat ∧
    (if qos = 0 then id = [] ∧ pid = 0 else id = put16 pid) ∧
    if v5 then ∃ bs block, props = bs ++ block ∧ Codes bs block.length ∧ bs.length ≤ 4
    else props = []

theorem readTwo_eq_some_iff {xs rest : List UInt8} {v : UInt16} :
    readTwo xs = some (v, rest) ↔ xs = put16 v ++ rest := by
  constructor
  · intro h
    match xs, h with
    | hi :: lo :: xs, h =>
      obtain ⟨rfl, rfl⟩ := Prod.mk.inj (Option.some.inj h)
      simp
  · rintro rfl
    simp [put16, readTwo]

theorem readTwo_of_le {xs : List UInt8} (h : 2 ≤ xs.length) :
    ∃ v rest, readTwo xs = some (v, rest) := by
  match xs, h with
  | hi :: lo :: xs, _ => exact ⟨_, _, rfl⟩

theorem readTopic_eq_some_iff {body topic rest : List UInt8} :
    readTopic body = some (topic, rest) ↔
      ∃ n : UInt16, body = put16 n ++ topic ++ rest ∧ topic.length = n.toNat := by
  simp only [readTopic, Option.bind_eq_bind, Option.bind_eq_some_iff, Prod.exists,
    readTwo_eq_some_iff]
  constructor
  · rintro ⟨n, xs, rfl, h⟩
    split at h
    · next hle =>
      obtain ⟨rfl, rfl⟩ := Prod.mk.inj (Option.some.inj h)
      exact ⟨n, by simp, by rw [List.length_take, min_eq_left hle]⟩
    · cases h
  · rintro ⟨n, rfl, hlen⟩
    refine ⟨n, topic ++ rest, List.append_assoc _ _ _, ?_⟩
    rw [if_pos (by simp [hlen]), ← hlen, List.take_left, List.drop_left]

theorem readPid_eq_some_iff {qos : ℕ} {xs rest : List UInt8} {pid : UInt16} :
    readPid qos xs = some (pid, rest) ↔
      ∃ id, xs = id ++ rest ∧ if qos = 0 then id = [] ∧ pid = 0 else id = put16 pid := by
  rw [readPid]
  by_cases hq : qos = 0
  · simp only [hq, if_true, Option.some.injEq, Prod.mk.injEq]
    constructor
    · rintro ⟨rfl, rfl⟩
      exact ⟨[], rfl, rfl, rfl⟩
    · rintro ⟨id, rfl, rfl, rfl⟩
      exact ⟨rfl, rfl⟩
  · simp only [hq, if_false, readTwo_eq_some_iff]
    constructor
    · rintro rfl
      exact ⟨_, rfl, rfl⟩
    · rintro ⟨id, rfl, rfl⟩
      rfl

theorem readProps_eq_some_iff {v5 : Bool} {xs payload : List UInt8} :
    readProps v5 xs = some payload ↔
      ∃ props, xs = props ++ payload ∧
        if v5 then ∃ bs block, props = bs ++ block ∧ Codes bs block.length ∧ bs.length ≤ 4
        else props = [] := by
  rw [readProps]
  cases v5 with
  | false =>
    simp only [Bool.false_eq_true, if_false, Option.some.injEq]
    constructor
    · rintro rfl
      exact ⟨[], rfl, rfl⟩
    · rintro ⟨props, rfl, rfl⟩
      rfl
  | true =>
    simp only [if_true]
    constructor
    · intro h
      cases hd : decode 4 xs with
      | none => rw [hd] at h; cases h
      | some r =>
        obtain ⟨n, rest⟩ := r
        obtain ⟨bs, rfl, hbs, hlen⟩ := decode_eq_some_iff.1 hd
        rw [hd] at h
        simp only at h
        split at h
        · next hle =>
          obtain rfl := Option.some.inj h
          have hblock : (rest.take n).length = n := by rw [List.length_take, min_eq_left hle]
          refine ⟨bs ++ rest.take n, ?_, bs, rest.take n, rfl, by rwa [hblock], hlen⟩
          rw [List.append_assoc, List.take_append_drop]
        · cases h
    · rintro ⟨props, rfl, bs, block, rfl, hbs, hlen⟩
      rw [List.append_assoc, hbs.decode _ hlen]
      simp

/-- **The reader accepts exactly the layout.** -/
theorem readPublish_eq_some_iff {v5 : Bool} {qos : ℕ} {body : List UInt8} {pid : UInt16}
    {payload : List UInt8} :
    readPublish v5 qos body = some (pid, payload) ↔ IsPublish v5 qos body pid payload := by
  constructor
  · intro h
    simp only [readPublish, Option.bind_eq_bind, Option.bind_eq_some_iff, Prod.exists] at h
    obtain ⟨topic, rest, ht, pid', rest', hp, payload', hr, heq⟩ := h
    obtain ⟨rfl, rfl⟩ := Prod.mk.inj (Option.some.inj heq)
    obtain ⟨n, rfl, hlen⟩ := readTopic_eq_some_iff.1 ht
    obtain ⟨id, rfl, hid⟩ := readPid_eq_some_iff.1 hp
    obtain ⟨props, rfl, hprops⟩ := readProps_eq_some_iff.1 hr
    exact ⟨n, topic, id, props, by simp only [List.append_assoc], hlen, hid, hprops⟩
  · rintro ⟨n, topic, id, props, rfl, hlen, hid, hprops⟩
    simp only [List.append_assoc]
    have ht : readTopic (put16 n ++ (topic ++ (id ++ (props ++ payload)))) = some (topic, id ++ (props ++ payload)) :=
      readTopic_eq_some_iff.2 ⟨n, by simp only [List.append_assoc], hlen⟩
    have hp : readPid qos (id ++ (props ++ payload)) = some (pid, props ++ payload) :=
      readPid_eq_some_iff.2 ⟨id, rfl, hid⟩
    have hr : readProps v5 (props ++ payload) = some payload :=
      readProps_eq_some_iff.2 ⟨props, rfl, hprops⟩
    simp only [readPublish, Option.bind_eq_bind, ht, hp, hr, Option.bind_some]

/-! ## What `parse_publish` accepts -/

/-- How far `parse_publish` moves behind the properties, from the bytes left. -/
def skipProps (v5 : Bool) (xs : List UInt8) : Option ℕ :=
  if v5 then
    let (plen, used) := getVarint xs xs.length
    if xs.length < used + plen then none else some (used + plen)
  else some 0

/-- `parse_publish` as a function of the packet's bytes. -/
def acceptPublish (v5 : Bool) (qos : ℕ) (body : List UInt8) :
    Option (UInt16 × List UInt8) := do
  let (_, rest) ← readTopic body
  let (pid, rest) ← readPid qos rest
  let n ← skipProps v5 rest
  some (pid, rest.drop n)

theorem publishHead_of_read {hdr : UInt8} {mem topic rest xs : List UInt8} {len : ℕ} {pid : UInt16}
    (ht : readTopic (mem.take len) = some (topic, rest))
    (hp : readPid (qosOf hdr) rest = some (pid, xs)) (hlen : len ≤ mem.length) :
    ∃ off, publishHead hdr mem len = some (pid, off) ∧ off ≤ len ∧
      xs = (mem.drop off).take (len - off) := by
  obtain ⟨n, hbody, hn⟩ := readTopic_eq_some_iff.1 ht
  obtain ⟨id, rfl, hid⟩ := readPid_eq_some_iff.1 hp
  have hmem : mem = put16 n ++ topic ++ (id ++ xs) ++ mem.drop len := by
    rw [← hbody, List.take_append_drop]
  have hsize : len = 2 + n.toNat + (id.length + xs.length) := by
    have := congrArg List.length hbody
    simp only [List.length_take, List.length_append, length_put16, min_eq_left hlen, hn] at this
    exact this
  have hxs : xs = (mem.drop (2 + n.toNat + id.length)).take
      (len - (2 + n.toNat + id.length)) := by
    rw [hmem, ← hn, hsize, ← hn]
    simp only [← List.append_assoc]
    rw [List.append_assoc _ xs, List.drop_left' (by simp; omega), List.take_left' (by omega)]
  have hoff : 2 + (read16 (mem.getD 0 0) (mem.getD 1 0)).toNat = 2 + n.toNat := by
    rw [hmem, put16]
    simp
  rw [publishHead, if_neg (by omega)]
  simp only [hoff]
  by_cases hq : qosOf hdr = 0
  · rw [if_pos hq] at hid
    obtain ⟨rfl, rfl⟩ := hid
    exact ⟨2 + n.toNat, by rw [if_pos hq], by omega, hxs⟩
  · rw [if_neg hq] at hid
    subst hid
    rw [length_put16] at hsize
    refine ⟨2 + n.toNat + 2, ?_, by omega, hxs⟩
    rw [if_neg hq, if_neg (by omega)]
    have hget : ∀ i, mem.getD (2 + n.toNat + i) 0 = (put16 pid ++ (xs ++ mem.drop len)).getD i 0 := by
      intro i
      conv_lhs => rw [hmem]
      have hlong : (put16 n ++ topic).length = 2 + n.toNat := by
        rw [List.length_append, length_put16, hn]
      rw [List.append_assoc _ _ (mem.drop len), List.append_assoc (put16 pid),
        List.getD_append_right _ _ _ _ (by omega), hlong, Nat.add_sub_cancel_left]
    have h0 := hget 0
    have h1 := hget 1
    rw [Nat.add_zero] at h0
    rw [h0, h1]
    simp [put16]

theorem read_of_publishHead {hdr : UInt8} {mem : List UInt8} {len off : ℕ} {pid : UInt16}
    (h : publishHead hdr mem len = some (pid, off)) (hlen : len ≤ mem.length) (hoff : off ≤ len) :
    ∃ topic rest pid' xs, readTopic (mem.take len) = some (topic, rest) ∧
      readPid (qosOf hdr) rest = some (pid', xs) := by
  rw [publishHead] at h
  split at h
  · cases h
  · next h2 =>
    obtain ⟨hi, lo, mem, rfl⟩ : ∃ hi lo rest, mem = hi :: lo :: rest := by
      have hpos : 2 ≤ mem.length := by omega
      rcases mem with _ | ⟨hi, _ | ⟨lo, rest⟩⟩
      · exact absurd hpos (by simp)
      · exact absurd hpos (by simp)
      · exact ⟨hi, lo, rest, rfl⟩
    simp only [List.length_cons] at hlen
    obtain ⟨m, rfl⟩ : ∃ m, len = m + 2 := ⟨len - 2, by omega⟩
    simp only [List.getD_cons_zero, List.getD_cons_succ] at h
    have htopic : 2 + (read16 hi lo).toNat ≤ m + 2 →
        readTopic ((hi :: lo :: mem).take (m + 2)) = some ((mem.take m).take (read16 hi lo).toNat,
          (mem.take m).drop (read16 hi lo).toNat) := by
      intro hle
      simp only [List.take_succ_cons, readTopic, readTwo, Option.bind_eq_bind, Option.bind_some]
      rw [if_pos (by rw [List.length_take]; omega)]
    split at h
    · next hq =>
      obtain ⟨rfl, rfl⟩ := Prod.mk.inj (Option.some.inj h)
      exact ⟨_, _, _, _, htopic hoff, by rw [readPid, if_pos hq]⟩
    · next hq =>
      split at h
      · cases h
      · next hle =>
        obtain ⟨rfl, rfl⟩ := Prod.mk.inj (Option.some.inj h)
        have hlong : 2 ≤ ((mem.take m).drop (read16 hi lo).toNat).length := by
          rw [List.length_drop, List.length_take]
          omega
        obtain ⟨v, xs, hxs⟩ := readTwo_of_le hlong
        exact ⟨_, _, v, xs, htopic (by omega), by rw [readPid, if_neg hq, hxs]⟩

theorem acceptPublish_eq_none {v5 : Bool} {hdr : UInt8} {mem : List UInt8} {len : ℕ}
    (hlen : len ≤ mem.length)
    (h : ∀ pid off, publishHead hdr mem len = some (pid, off) → len < off) :
    acceptPublish v5 (qosOf hdr) (mem.take len) = none := by
  rw [acceptPublish]
  cases ht : readTopic (mem.take len) with
  | none => rfl
  | some t =>
    obtain ⟨topic, rest⟩ := t
    cases hp : readPid (qosOf hdr) rest with
    | none => simp [hp]
    | some r =>
      obtain ⟨off, hoff, hle, -⟩ := publishHead_of_read ht hp hlen
      have := h _ _ hoff
      omega

/-- **`parse_publish` depends on the packet's bytes only.**  What it returns is what
`acceptPublish` makes of the body, whatever memory lies behind it. -/
theorem parsePublish_view (v5 : Bool) (hdr : UInt8) {mem : List UInt8} {len : ℕ}
    (hlen : len ≤ mem.length) :
    (parsePublish v5 hdr mem len).map (fun i => (i.pid, i.bytes)) =
      acceptPublish v5 (qosOf hdr) (mem.take len) := by
  cases hh : publishHead hdr mem len with
  | none =>
    have hnone : acceptPublish v5 (qosOf hdr) (mem.take len) = none :=
      acceptPublish_eq_none hlen fun pid off h => by rw [hh] at h; cases h
    rw [hnone, parsePublish, hh]
    rfl
  | some r =>
    obtain ⟨pid, off⟩ := r
    rcases le_or_gt off len with hoff | hoff
    · obtain ⟨topic, rest, pid', xs, ht, hp⟩ := read_of_publishHead hh hlen hoff
      obtain ⟨off', hoff', hle, hxs⟩ := publishHead_of_read ht hp hlen
      rw [hh] at hoff'
      obtain ⟨rfl, rfl⟩ := Prod.mk.inj (Option.some.inj hoff')
      have hsize : xs.length = len - off := by
        rw [hxs, List.length_take, List.length_drop]
        omega
      have hvar : getVarint (mem.drop off) (sub32 len off) = getVarint xs xs.length := by
        rw [sub32_of_le hle, hsize, hxs, getVarint_take]
      have hbytes : ∀ n, (mem.drop (off + n)).take (len - (off + n)) = xs.drop n := by
        intro n
        rw [hxs, List.drop_take, List.drop_drop, Nat.sub_sub]
      rw [parsePublish, acceptPublish, hh, ht]
      simp only [Option.bind_eq_bind, Option.bind_some, hp, publishProps, skipProps, hvar]
      cases v5 with
      | false =>
        have h0 := hbytes 0
        rw [Nat.add_zero] at h0
        simp only [Bool.false_eq_true, if_false, Option.bind_some, if_neg (not_lt.2 hle)]
        simp [Inbound.bytes, h0]
      | true =>
        simp only [if_true]
        generalize getVarint xs xs.length = r
        obtain ⟨plen, used⟩ := r
        simp only
        by_cases hfit : len < off + used + plen
        · rw [if_pos hfit, if_pos (by omega)]
          rfl
        · rw [if_neg hfit, if_neg (by omega)]
          simp only [Option.bind_some]
          rw [if_neg hfit]
          have hrest := hbytes (used + plen)
          rw [← Nat.add_assoc] at hrest
          simp [Inbound.bytes, hrest]
    · have hnone : acceptPublish v5 (qosOf hdr) (mem.take len) = none :=
        acceptPublish_eq_none hlen fun pid' off' h => by
          rw [hh] at h
          cases h
          exact hoff
      rw [hnone, parsePublish, hh]
      simp only [Option.bind_eq_bind, Option.bind_some, publishProps]
      cases v5 with
      | false =>
        simp only [Bool.false_eq_true, if_false, Option.bind_some, if_pos hoff]
        rfl
      | true =>
        simp only [if_true]
        generalize getVarint (mem.drop off) (sub32 len off) = r
        obtain ⟨plen, used⟩ := r
        simp only
        rw [if_pos (by omega)]
        rfl

/-- An accepted PUBLISH carries the QoS of its header and a payload inside the packet. -/
theorem parsePublish_some {v5 : Bool} {hdr : UInt8} {mem : List UInt8} {len : ℕ} {i : Inbound}
    (h : parsePublish v5 hdr mem len = some i) (hlen : len ≤ mem.length) :
    i.qos = qosOf hdr ∧ i.bytes.length = i.plen ∧ i.plen ≤ len := by
  simp only [parsePublish, Option.bind_eq_bind, Option.bind_eq_some_iff, Prod.exists] at h
  obtain ⟨pid, off, -, off', seen, -, h⟩ := h
  split at h
  · cases h
  · obtain rfl := Option.some.inj h
    refine ⟨rfl, ?_, Nat.sub_le _ _⟩
    rw [Inbound.bytes, List.length_take, List.length_drop]
    exact min_eq_left (Nat.sub_le_sub_right hlen _)

/-! ## Where it departs from the layout -/

/-- **A cut property length**: none of its bytes is a last one, within four bytes and
the end of the packet, and yet what they spell fits into the rest. -/
def Cut (v5 : Bool) (qos : ℕ) (body : List UInt8) : Prop :=
  v5 = true ∧ ∃ t ∈ readTopic body, ∃ r ∈ readPid qos t.2,
    decode 4 r.2 = none ∧ min 4 r.2.length + spelled (r.2.take 4) ≤ r.2.length

instance (v5 : Bool) (qos : ℕ) (body : List UInt8) : Decidable (Cut v5 qos body) :=
  inferInstanceAs (Decidable (_ ∧ _))

/-- Where the property length ends in time, `parse_publish` skips what it says. -/
theorem skipProps_of_decode {xs rest : List UInt8} {n : ℕ} (h : decode 4 xs = some (n, rest)) :
    (skipProps true xs).map xs.drop = readProps true xs := by
  obtain ⟨bs, rfl, hbs, hlen⟩ := decode_eq_some_iff.1 h
  rw [skipProps, readProps, h, getVarint_codes hbs rest hlen (by simp)]
  simp only [if_true, List.length_append]
  by_cases hle : n ≤ rest.length
  · rw [if_neg (by omega), if_pos hle, Option.map_some, ← List.drop_drop, List.drop_left]
  · rw [if_pos (by omega), if_neg hle, Option.map_none]

/-- Where it does not, `parse_publish` goes by what the bytes have spelled so far. -/
theorem skipProps_of_decode_eq_none {xs : List UInt8} (h : decode 4 xs = none) :
    skipProps true xs =
      if min 4 xs.length + spelled (xs.take 4) ≤ xs.length
      then some (min 4 xs.length + spelled (xs.take 4)) else none := by
  have hcut : getVarint xs xs.length = (spelled (xs.take 4), min 4 xs.length) := by
    rw [List.take_eq_take_min]
    refine getVarint_cut le_rfl ?_
    rw [← List.take_eq_take_min]
    exact continues_of_decode_eq_none h
  rw [skipProps, hcut]
  simp only [if_true]
  by_cases hle : min 4 xs.length + spelled (xs.take 4) ≤ xs.length
  · rw [if_pos hle, if_neg (by omega)]
  · rw [if_neg hle, if_pos (by omega)]

/-- **What is accepted is read as the layout says**, where the property length is not
cut. -/
theorem acceptPublish_eq {v5 : Bool} {qos : ℕ} {body : List UInt8} (h : ¬ Cut v5 qos body) :
    acceptPublish v5 qos body = readPublish v5 qos body := by
  rw [acceptPublish, readPublish]
  cases ht : readTopic body with
  | none => rfl
  | some t =>
    obtain ⟨topic, rest⟩ := t
    simp only [Option.bind_eq_bind, Option.bind_some]
    cases hp : readPid qos rest with
    | none => rfl
    | some r =>
      obtain ⟨pid, xs⟩ := r
      simp only [Option.bind_some]
      have hskip : (skipProps v5 xs).map xs.drop = readProps v5 xs := by
        cases v5 with
        | false => rfl
        | true =>
          cases hd : decode 4 xs with
          | some r => exact skipProps_of_decode hd
          | none =>
            rw [skipProps_of_decode_eq_none hd, if_neg, readProps, hd]
            · rfl
            · intro hle
              exact h ⟨rfl, _, ht, _, hp, hd, hle⟩
      rw [← hskip]
      cases skipProps v5 xs <;> rfl

/-- **A PUBLISH with a cut property length is no PUBLISH, and is accepted.** -/
theorem acceptPublish_of_cut {v5 : Bool} {qos : ℕ} {body : List UInt8} (h : Cut v5 qos body) :
    readPublish v5 qos body = none ∧ (acceptPublish v5 qos body).isSome := by
  obtain ⟨rfl, ⟨topic, rest⟩, ht, ⟨pid, xs⟩, hp, hd, hle⟩ := h
  simp only [Option.mem_def] at ht hp
  rw [readPublish, acceptPublish, ht]
  simp only [Option.bind_eq_bind, Option.bind_some, hp]
  rw [readProps, hd, skipProps_of_decode_eq_none hd, if_pos hle]
  exact ⟨rfl, rfl⟩

end Peer
