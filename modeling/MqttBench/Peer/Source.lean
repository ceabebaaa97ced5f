import MqttBench.Peer.Receiver

/-!
# The peer as a source

`build_publish` and `put_properties` of `mqtt_peer.c`, and the patching of `run_source`: a
PUBLISH is encoded once for each topic, and every message is a copy of it with its own
packet id and stamp.

* `patch_buildPublish` — the patched copy is a framed packet with the layout of a PUBLISH;
  the offsets hit the packet id and the first eight payload bytes.
* `readStamp_stampBytes` — `read_stamp` reads what `write_stamp` wrote.
* `parsePublish_layout` — what `parse_publish` returns for such a packet, in full.
* `patch_understood` — **the sink understands what the source emits**.
-/

namespace Peer

open Base128 Framing

/-! ## The program -/

/-- The bytes of an ASCII literal. -/
def ascii (s : String) : List UInt8 := s.toList.map fun c => UInt8.ofNat c.toNat

/-- `put_properties(p)`: expiry, content type and two user properties. -/
def putProperties : List UInt8 :=
  [0x02, 0, 0, 0, 60]
    ++ 0x03 :: putStr (ascii "application/octet-stream")
    ++ 0x26 :: (putStr (ascii "schema") ++ putStr (ascii "telemetry.v1"))
    ++ 0x26 :: (putStr (ascii "region") ++ putStr (ascii "eu-west-1"))

/-- `struct publish_template`; `pkt` holds its `len` bytes. -/
structure PublishTemplate where
  pkt : List UInt8
  /-- 0 when QoS 0. -/
  pidOff : ℕ
  /-- 0 when the payload is shorter than a stamp. -/
  stampOff : ℕ

/-- `remaining` of `build_publish`, before it is cut to 32 bits. -/
def remainingLength (v5 props : Bool) (topic : List UInt8) (qos payload : ℕ) : ℕ :=
  2 + topic.length + (if qos ≠ 0 then 2 else 0)
    + (if v5 then 1 + (if v5 && props then putProperties else []).length else 0) + payload

/-- `build_publish(t, topic, qos, payload)` under `g_v5` and `g_props`. -/
def buildPublish (v5 props : Bool) (topic : List UInt8) (qos payload : ℕ) : PublishTemplate :=
  let block := if v5 && props then putProperties else []
  let remaining := remainingLength v5 props topic qos payload % 2 ^ 32
  let head := ((0x30 : UInt8) ||| UInt8.ofNat qos <<< 1) :: putVarint remaining ++ putStr topic
  let front := head ++ (if qos ≠ 0 then [0, 1] else [])
    ++ (if v5 then UInt8.ofNat block.length :: block else [])
  { pkt := front ++ List.replicate payload 0x41
    pidOff := if qos ≠ 0 then head.length else 0
    stampOff := if 8 ≤ payload then front.length else 0 }

/-- `write_stamp(p + off, v)`. -/
def writeStamp (p : List UInt8) (off : ℕ) (v : UInt64) : List UInt8 :=
  (List.range 8).foldl (fun p i => p.set (off + i) (v >>> UInt64.ofNat (8 * i)).toUInt8) p

/-- What `run_source` makes of a copy of the template, for the next packet id and the
stamp of the batch. -/
def PublishTemplate.patch (t : PublishTemplate) (pid : UInt16) (stamp : UInt64) : List UInt8 :=
  let pkt := if t.pidOff ≠ 0 then
      (t.pkt.set t.pidOff (pid >>> 8).toUInt8).set (t.pidOff + 1) pid.toUInt8
    else t.pkt
  if t.stampOff ≠ 0 then writeStamp pkt t.stampOff stamp else pkt

/-! ## Stamps -/

/-- The first `n` bytes of a stamp, the lowest first. -/
def stampBytes (n : ℕ) (v : UInt64) : List UInt8 :=
  (List.range n).map fun i => (v >>> UInt64.ofNat (8 * i)).toUInt8

@[simp] theorem length_stampBytes (n : ℕ) (v : UInt64) : (stampBytes n v).length = n := by
  simp [stampBytes]

/-- Setting a range of places one by one replaces what stood there. -/
theorem foldl_set_range {α : Type*} (f : ℕ → α) (front old rest : List α) :
    (List.range old.length).foldl (fun p i => p.set (front.length + i) (f i))
      (front ++ old ++ rest) = front ++ (List.range old.length).map f ++ rest := by
  induction old using List.reverseRecOn generalizing rest with
  | nil => simp
  | append_singleton old x ih =>
    have hset : (front ++ (List.range old.length).map f ++ x :: rest).set
        (front.length + old.length) (f old.length)
        = front ++ (List.range old.length).map f ++ f old.length :: rest := by
      rw [List.set_append_right _ _ (by simp)]
      simp
    rw [List.length_append, List.length_singleton, List.range_succ, List.foldl_append,
      show front ++ (old ++ [x]) ++ rest = front ++ old ++ x :: rest by simp, ih]
    simp only [List.foldl_cons, List.foldl_nil]
    rw [hset]
    simp

theorem writeStamp_append (front old rest : List UInt8) (v : UInt64) (h : old.length = 8) :
    writeStamp (front ++ old ++ rest) front.length v = front ++ stampBytes 8 v ++ rest := by
  have := foldl_set_range (fun i => (v >>> UInt64.ofNat (8 * i)).toUInt8) front old rest
  rwa [h] at this

theorem toNat_shiftLeft_or {v : UInt64} (h : v.toNat < 2 ^ 56) (b : UInt8) :
    (v <<< 8 ||| b.toUInt64).toNat = v.toNat * 256 + b.toNat := by
  have hb := b.toNat_lt
  have hor := Nat.two_pow_add_eq_or_of_lt (i := 8) (b := b.toNat) (by omega) v.toNat
  rw [UInt64.toNat_or, UInt64.toNat_shiftLeft, UInt8.toNat_toUInt64, Nat.shiftLeft_eq,
    show (8 : UInt64).toNat % 64 = 8 from rfl, Nat.mod_eq_of_lt (by omega), Nat.mul_comm, ← hor]

/-- The bytes of a stamp are its digits to the base 256. -/
theorem getElem_stampBytes (v : UInt64) {i : ℕ} (h : i < 8) :
    ((v >>> UInt64.ofNat (8 * i)).toUInt8).toNat = v.toNat / 256 ^ i % 256 := by
  rw [UInt64.toNat_toUInt8, UInt64.toNat_shiftRight, UInt64.toNat_ofNat',
    Nat.shiftRight_eq_div_pow, Nat.mod_eq_of_lt (show 8 * i < 2 ^ 64 by omega),
    Nat.mod_eq_of_lt (show 8 * i < 64 by omega), pow_mul]
  rfl

/-- The upper bytes of a stamp, read back. -/
theorem foldr_stampBytes (v : UInt64) (k : ℕ) (h : k ≤ 8) :
    (((stampBytes 8 v).drop (8 - k)).foldr
      (fun (b : UInt8) (v : UInt64) => v <<< 8 ||| b.toUInt64) 0).toNat = v.toNat / 256 ^ (8 - k) := by
  induction k with
  | zero =>
    have hv := v.toNat_lt
    rw [List.drop_eq_nil_of_le (by simp)]
    simp only [List.foldr_nil, UInt64.toNat_zero]
    omega
  | succ k ih =>
    have hi : 8 - (k + 1) < (stampBytes 8 v).length := by simp; omega
    have hpow : v.toNat / 256 ^ (8 - k) = v.toNat / 256 ^ (8 - (k + 1)) / 256 := by
      rw [Nat.div_div_eq_div_mul, ← pow_succ, show 8 - (k + 1) + 1 = 8 - k by omega]
    have hlt : v.toNat / 256 ^ (8 - k) < 2 ^ 56 := by
      rw [hpow, Nat.div_div_eq_div_mul]
      have hv := v.toNat_lt
      have := Nat.one_le_pow (8 - (k + 1)) 256 (by norm_num)
      apply Nat.div_lt_of_lt_mul
      nlinarith
    rw [List.drop_eq_getElem_cons hi, show 8 - (k + 1) + 1 = 8 - k by omega, List.foldr_cons,
      toNat_shiftLeft_or (by rw [ih (by omega)]; exact hlt), ih (by omega)]
    simp only [stampBytes, List.getElem_map, List.getElem_range]
    rw [getElem_stampBytes v (by omega), hpow]
    omega

/-- **`read_stamp` reads what `write_stamp` wrote.** -/
theorem readStamp_stampBytes (v : UInt64) (rest : List UInt8) :
    readStamp (stampBytes 8 v ++ rest) = v := by
  have h := foldr_stampBytes v 8 le_rfl
  rw [← UInt64.toNat_inj, readStamp, List.take_left' (by simp)]
  simpa using h

/-! ## What the source writes -/

theorem set_two (front rest : List UInt8) (x y a b : UInt8) :
    ((front ++ [x, y] ++ rest).set front.length a).set (front.length + 1) b
      = front ++ [a, b] ++ rest := by
  rw [List.append_assoc, List.set_append_right _ _ le_rfl, List.set_append_right _ _ (by omega),
    List.append_assoc, Nat.sub_self, Nat.add_sub_cancel_left]
  rfl

/-- **The patch hits its mark**: only the id and the stamp of a packet change. -/
theorem patch_spec {head id id' block old new rest : List UInt8} {pidOff stampOff : ℕ}
    {pid : UInt16} {stamp : UInt64}
    (hid : if pidOff = 0 then id = id' else id = [0, 1] ∧ id' = put16 pid ∧ pidOff = head.length)
    (hold : if stampOff = 0 then old = new
      else old.length = 8 ∧ new = stampBytes 8 stamp ∧ stampOff = (head ++ id ++ block).length) :
    (PublishTemplate.mk (head ++ id ++ block ++ old ++ rest) pidOff stampOff).patch pid stamp
      = head ++ id' ++ block ++ new ++ rest := by
  have hidlen : (head ++ id' ++ block).length = (head ++ id ++ block).length := by
    split at hid
    · rw [hid]
    · obtain ⟨rfl, rfl, -⟩ := hid
      simp only [List.length_append, length_put16, List.length_cons, List.length_nil]
  have hpkt : (if pidOff ≠ 0 then
      ((head ++ id ++ block ++ old ++ rest).set pidOff (pid >>> 8).toUInt8).set (pidOff + 1)
        pid.toUInt8
      else head ++ id ++ block ++ old ++ rest) = head ++ id' ++ block ++ old ++ rest := by
    split at hid
    · next h0 => rw [if_neg (not_not.2 h0), hid]
    · next h0 =>
      obtain ⟨rfl, rfl, rfl⟩ := hid
      rw [if_pos h0, List.append_assoc _ block, List.append_assoc _ (block ++ old), set_two, put16]
      simp only [List.append_assoc]
  unfold PublishTemplate.patch
  simp only [hpkt]
  split at hold
  · next h0 => rw [if_neg (not_not.2 h0), hold]
  · next h0 =>
    obtain ⟨h8, rfl, rfl⟩ := hold
    rw [if_pos h0, ← hidlen, writeStamp_append _ old rest stamp h8]

/-- The header byte of the source's PUBLISHes. -/
def sourceHeader (qos : ℕ) : UInt8 := (0x30 : UInt8) ||| UInt8.ofNat qos <<< 1

/-- The property block behind the packet id, with its length. -/
def sourceProps (v5 props : Bool) : List UInt8 :=
  let block := if v5 && props then putProperties else []
  if v5 then UInt8.ofNat block.length :: block else []

/-- The stamped payload. -/
def sourcePayload (payload : ℕ) (stamp : UInt64) : List UInt8 :=
  if 8 ≤ payload then stampBytes 8 stamp ++ List.replicate (payload - 8) 0x41
  else List.replicate payload 0x41

/-- The body of a patched packet. -/
def sourceBody (v5 props : Bool) (topic : List UInt8) (qos payload : ℕ) (pid : UInt16)
    (stamp : UInt64) : List UInt8 :=
  putStr topic ++ (if qos = 0 then [] else put16 pid) ++ sourceProps v5 props
    ++ sourcePayload payload stamp

theorem length_sourcePayload (payload : ℕ) (stamp : UInt64) :
    (sourcePayload payload stamp).length = payload := by
  unfold sourcePayload
  split
  · next h => simp; omega
  · simp

theorem length_sourceBody (v5 props : Bool) (topic : List UInt8) (qos payload : ℕ) (pid : UInt16)
    (stamp : UInt64) :
    (sourceBody v5 props topic qos payload pid stamp).length
      = remainingLength v5 props topic qos payload := by
  unfold sourceBody remainingLength sourceProps
  simp only [List.length_append, length_sourcePayload, putStr, length_put16]
  congr 2
  · by_cases hq : qos = 0 <;> simp [hq]
  · cases v5 <;> simp [Nat.add_comm]

/-- **A patched packet is a framed PUBLISH.** -/
theorem patch_buildPublish {v5 props : Bool} {topic : List UInt8} {qos payload : ℕ}
    (h : remainingLength v5 props topic qos payload < 2 ^ 32) (pid : UInt16) (stamp : UInt64) :
    (buildPublish v5 props topic qos payload).patch pid stamp
      = packetBytes (sourceHeader qos, sourceBody v5 props topic qos payload pid stamp) := by
  let old : List UInt8 := if 8 ≤ payload then List.replicate 8 0x41 else []
  let new : List UInt8 := if 8 ≤ payload then stampBytes 8 stamp else []
  let rest : List UInt8 := List.replicate (if 8 ≤ payload then payload - 8 else payload) 0x41
  let head : List UInt8 := sourceHeader qos ::
    putVarint (remainingLength v5 props topic qos payload) ++ putStr topic
  let id : List UInt8 := if qos ≠ 0 then [0, 1] else []
  have hold : List.replicate payload 0x41 = old ++ rest := by
    by_cases h8 : 8 ≤ payload
    · simp only [old, rest, if_pos h8]
      rw [List.replicate_append_replicate, Nat.add_sub_cancel' h8]
    · simp only [old, rest, if_neg h8, List.nil_append]
  have hnew : sourcePayload payload stamp = new ++ rest := by
    unfold sourcePayload
    by_cases h8 : 8 ≤ payload
    · simp only [new, rest, if_pos h8]
    · simp only [new, rest, if_neg h8, List.nil_append]
  have hpatch : (PublishTemplate.mk (head ++ id ++ sourceProps v5 props ++ old ++ rest)
      (if qos ≠ 0 then head.length else 0)
      (if 8 ≤ payload then (head ++ id ++ sourceProps v5 props).length else 0)).patch pid stamp
      = head ++ (if qos = 0 then [] else put16 pid) ++ sourceProps v5 props ++ new ++ rest := by
    apply patch_spec
    · by_cases hq : qos = 0 <;> simp [id, head, hq]
    · by_cases h8 : 8 ≤ payload <;> simp [old, new, head, h8]
  calc (buildPublish v5 props topic qos payload).patch pid stamp
      = (PublishTemplate.mk (head ++ id ++ sourceProps v5 props ++ old ++ rest)
          (if qos ≠ 0 then head.length else 0)
          (if 8 ≤ payload then (head ++ id ++ sourceProps v5 props).length else 0)).patch pid
            stamp := by
        unfold buildPublish
        simp only [Nat.mod_eq_of_lt h, hold, ← List.append_assoc]
        rfl
    _ = head ++ (if qos = 0 then [] else put16 pid) ++ sourceProps v5 props ++ new ++ rest := hpatch
    _ = packetBytes (sourceHeader qos, sourceBody v5 props topic qos payload pid stamp) := by
        rw [packetBytes, length_sourceBody, sourceBody, hnew]
        simp only [head, List.append_assoc, List.cons_append]

/-! ## What the sink reads -/

theorem getD_take {p : List UInt8} {n i : ℕ} (h : i < n) : (p.take n).getD i 0 = p.getD i 0 := by
  rw [List.getD_eq_getElem?_getD, List.getD_eq_getElem?_getD, List.getElem?_take_of_lt h]

theorem hasUserPropertyLoop_take (p : List UInt8) (n fuel i : ℕ) :
    hasUserPropertyLoop (p.take n) n fuel i = hasUserPropertyLoop p n fuel i := by
  induction fuel generalizing i with
  | zero => rfl
  | succ fuel ih =>
    have hvar : getVarint ((p.take n).drop (i + 1)) (n - (i + 1))
        = getVarint (p.drop (i + 1)) (n - (i + 1)) := by
      rw [List.drop_take, getVarint_take]
    by_cases hi : i < n
    · simp only [hasUserPropertyLoop, if_pos hi, getD_take hi, hvar, ih]
      by_cases h2 : n < i + 1 + 2
      · simp only [if_pos h2]
      · simp only [if_neg h2, getD_take (show i + 1 < n by omega),
          getD_take (show i + 2 < n by omega)]
    · rw [hasUserPropertyLoop, hasUserPropertyLoop, if_neg hi, if_neg hi]

/-- `has_user_property` looks at no byte outside its block. -/
theorem hasUserProperty_take (p : List UInt8) (n : ℕ) :
    hasUserProperty (p.take n) n = hasUserProperty p n :=
  hasUserPropertyLoop_take p n n 0

/-- `put_properties` attaches a user property, and its length is one varint byte. -/
theorem putProperties_spec :
    hasUserProperty putProperties putProperties.length = true ∧
      0 < putProperties.length ∧ putProperties.length < 128 := by
  decide +kernel

/-- What `parse_publish` returns for a packet with the layout of a PUBLISH, whatever
memory lies behind it. -/
theorem parsePublish_layout {v5 : Bool} {hdr : UInt8} {topic id props payload mem : List UInt8}
    {topicLen pid : UInt16} {len : ℕ} {seen : Bool}
    (hbody : mem.take len = put16 topicLen ++ topic ++ id ++ props ++ payload)
    (hlen : len ≤ mem.length) (htopic : topic.length = topicLen.toNat)
    (hid : if qosOf hdr = 0 then id = [] ∧ pid = 0 else id = put16 pid)
    (hprops : if v5 then ∃ bs block, props = bs ++ block ∧ Codes bs block.length ∧ bs.length ≤ 4 ∧
        seen = (block.length ≠ 0 && hasUserProperty block block.length : Bool)
      else props = [] ∧ seen = false) :
    ∃ i, parsePublish v5 hdr mem len = some i ∧ i.qos = qosOf hdr ∧ i.pid = pid ∧
      i.plen = payload.length ∧ i.bytes = payload ∧ i.propsSeen = seen := by
  have ht : readTopic (mem.take len) = some (topic, id ++ (props ++ payload)) :=
    readTopic_eq_some_iff.2 ⟨topicLen, by rw [hbody]; simp only [List.append_assoc], htopic⟩
  have hp : readPid (qosOf hdr) (id ++ (props ++ payload)) = some (pid, props ++ payload) :=
    readPid_eq_some_iff.2 ⟨id, rfl, hid⟩
  obtain ⟨off, hhead, hoff, hxs⟩ := publishHead_of_read ht hp hlen
  have hmem : mem.drop off = props ++ payload ++ mem.drop len := by
    rw [hxs]
    conv_lhs => rw [← List.take_append_drop (len - off) (mem.drop off)]
    rw [List.drop_drop, Nat.add_sub_cancel' hoff]
  have hsize : len = off + props.length + payload.length := by
    have := congrArg List.length hxs
    rw [List.length_take, List.length_drop, List.length_append] at this
    omega
  have hstep : publishProps v5 mem len off = some (off + props.length, seen) := by
    unfold publishProps
    cases v5 with
    | false =>
      obtain ⟨rfl, rfl⟩ := hprops
      rfl
    | true =>
      obtain ⟨bs, block, rfl, hbs, h4, hseen⟩ := hprops
      rw [List.length_append] at hsize
      have hvar : getVarint (mem.drop off) (sub32 len off) = (block.length, bs.length) := by
        rw [hmem, List.append_assoc, List.append_assoc, sub32_of_le hoff]
        exact getVarint_codes hbs _ h4 (by omega)
      have hblock : (mem.drop (off + bs.length)).take block.length = block := by
        rw [← List.drop_drop, hmem, List.append_assoc, List.append_assoc, List.drop_left,
          List.take_left]
      simp only [if_true, hvar]
      rw [if_neg (by omega), ← hasUserProperty_take, hblock, hseen, List.length_append,
        Nat.add_assoc]
  refine ⟨⟨qosOf hdr, pid, mem.drop (off + props.length), payload.length, seen⟩, ?_, rfl, rfl, rfl,
    ?_, rfl⟩
  · rw [parsePublish, hhead]
    simp only [Option.bind_eq_bind, Option.bind_some, hstep]
    rw [if_neg (by omega), show len - (off + props.length) = payload.length by omega]
  · unfold Inbound.bytes
    simp only
    rw [← List.drop_drop, hmem, List.append_assoc, List.drop_left, List.take_left]

/-! ## The source and the sink -/

theorem qosOf_sourceHeader {qos : ℕ} (h : qos ≤ 2) : qosOf (sourceHeader qos) = qos := by
  interval_cases qos <;> rfl

/-- What the properties of the source are to a reader: a length that ends in time, and a
user property exactly where `g_props` attached one. -/
theorem sourceProps_spec (v5 props : Bool) :
    if v5 then ∃ bs block, sourceProps v5 props = bs ++ block ∧ Codes bs block.length ∧
        bs.length ≤ 4 ∧
        (v5 && props) = (block.length ≠ 0 && hasUserProperty block block.length : Bool)
      else sourceProps v5 props = [] ∧ (v5 && props) = false := by
  cases v5 with
  | false => exact ⟨rfl, rfl⟩
  | true =>
    obtain ⟨huser, hpos, hlt⟩ := putProperties_spec
    cases props with
    | false => exact ⟨[0], [], rfl, .last (by decide), by decide, by decide⟩
    | true =>
      have hb : (UInt8.ofNat putProperties.length).toNat = putProperties.length := by
        rw [UInt8.toNat_ofNat']
        omega
      have hcode : Codes [UInt8.ofNat putProperties.length] putProperties.length := by
        have := Codes.last (b := UInt8.ofNat putProperties.length) (by omega)
        rwa [hb] at this
      refine ⟨[UInt8.ofNat putProperties.length], putProperties, rfl, hcode, by simp, ?_⟩
      rw [huser, Bool.and_true, decide_eq_true hpos.ne']
      rfl

/-- **The sink understands what the source emits.**  In a read buffer that begins with a
patched packet, `next_packet` splits that packet off, and `parse_publish` finds its QoS,
its packet id, a payload of the size asked for with its stamp, and a user property exactly
when properties were attached. -/
theorem patch_understood (v5 props : Bool) (topic : List UInt8) (qos payload : ℕ)
    (htopic : topic.length ≤ 65535) (hqos : qos ≤ 2)
    (hremaining : remainingLength v5 props topic qos payload ≤ 268435455) (pid : UInt16)
    (stamp : UInt64) (b : Rbuf) (rest : List UInt8)
    (hb : b.unread = (buildPublish v5 props topic qos payload).patch pid stamp ++ rest) :
    ∃ b' pk i, nextPacket b = (b', .packet pk) ∧ b'.unread = rest ∧
      pk.hdr = (0x30 : UInt8) ||| UInt8.ofNat qos <<< 1 ∧
      parsePublish v5 pk.hdr pk.mem pk.len = some i ∧ i.qos = qos ∧
      i.pid = (if qos = 0 then 0 else pid) ∧ i.plen = payload ∧ i.bytes.length = payload ∧
      (8 ≤ payload → readStamp i.payload = stamp) ∧ i.propsSeen = (v5 && props) := by
  have hpacket : (buildPublish v5 props topic qos payload).patch pid stamp
      = packetBytes (sourceHeader qos, sourceBody v5 props topic qos payload pid stamp) :=
    patch_buildPublish (by omega) pid stamp
  have hframe : parse b.unread = .item
      (sourceHeader qos, sourceBody v5 props topic qos payload pid stamp) rest := by
    rw [hb, hpacket]
    exact parse_frames (by rw [length_sourceBody]; exact hremaining) rest
  have hnext := nextPacket_spec b
  revert hnext
  cases hgot : nextPacket b with
  | mk b' got =>
    rw [hframe]
    cases got with
    | more => rintro ⟨h, -⟩; cases h
    | malformed => rintro ⟨h, -⟩; cases h
    | packet pk =>
      intro h
      injection h with hpk hrest
      obtain ⟨hhdr, hbody⟩ := Prod.mk.inj hpk
      have hq : qosOf pk.hdr = qos := by rw [← hhdr, qosOf_sourceHeader hqos]
      have hlayout : pk.mem.take pk.len = put16 (UInt16.ofNat topic.length) ++ topic
          ++ (if qos = 0 then [] else put16 pid) ++ sourceProps v5 props
          ++ sourcePayload payload stamp := hbody.symm
      have hid : if qosOf pk.hdr = 0 then
          (if qos = 0 then [] else put16 pid) = [] ∧ (if qos = 0 then 0 else pid) = 0
          else (if qos = 0 then [] else put16 pid) = put16 (if qos = 0 then 0 else pid) := by
        rw [hq]
        split <;> simp
      obtain ⟨i, hi, hiqos, hipid, hiplen, hibytes, hiseen⟩ := parsePublish_layout hlayout pk.len_le
        (UInt16.toNat_ofNat_of_lt' (lt_of_le_of_lt htopic (by decide))).symm hid
        (sourceProps_spec v5 props)
      rw [length_sourcePayload] at hiplen
      refine ⟨b', pk, i, rfl, hrest.symm, hhdr.symm, hi, by rw [hiqos, hq], hipid, hiplen, ?_, ?_,
        hiseen⟩
      · rw [hibytes, length_sourcePayload]
      · intro h8
        have htake : i.payload.take 8 = stampBytes 8 stamp := by
          rw [Inbound.bytes, hiplen, sourcePayload, if_pos h8] at hibytes
          have := congrArg (List.take 8) hibytes
          rwa [List.take_take, min_eq_left h8, List.take_left' (by simp)] at this
        have hstamp := readStamp_stampBytes stamp []
        rw [List.append_nil] at hstamp
        rw [readStamp, htake, ← List.take_of_length_le (l := stampBytes 8 stamp) (i := 8) (by simp)]
        exact hstamp

theorem patch_understood_example :
    ∃ b' pk i, nextPacket ((Rbuf.init 512 (by decide)).recv
        ((buildPublish true true (ascii "bench/1") 1 8).patch 258 1700000000)) = (b', .packet pk) ∧
      b'.unread = [] ∧ pk.hdr = 0x32 ∧ parsePublish true pk.hdr pk.mem pk.len = some i ∧
      i.qos = 1 ∧ i.pid = 258 ∧ i.plen = 8 ∧ readStamp i.payload = 1700000000 ∧
      i.propsSeen = true := by
  have hroom : ((buildPublish true true (ascii "bench/1") 1 8).patch 258 1700000000).length
      ≤ (Rbuf.init 512 (by decide)).room := by decide +kernel
  have hunread := Rbuf.unread_recv (Rbuf.init 512 (by decide)) hroom
  obtain ⟨b', pk, i, hgot, hrest, hhdr, hi, hqos, hpid, hplen, -, hstamp, hseen⟩ :=
    patch_understood true true (ascii "bench/1") 1 8 (by decide) (by decide) (by decide +kernel)
      258 1700000000 _ [] (by rw [hunread, Rbuf.unread_init, List.append_nil, List.nil_append])
  exact ⟨b', pk, i, hgot, hrest, hhdr, hi, hqos, hpid, hplen, hstamp le_rfl, hseen⟩

end Peer
