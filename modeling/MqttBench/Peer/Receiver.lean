import MqttBench.Peer.Latency
import MqttBench.Peer.Wbuf

/-!
# The peer as a receiver

`run_receiver` of `mqtt_peer.c`, the read loop that sink and echo share: it counts and
answers every packet, and flushes once for every `recv()`.

* `response` — what is due for one packet, in terms of the packet alone.
* `Answers` — the invariant of the loop: bytes written and bytes waiting are the
  responses to the packets handled so far, and the counters are their counts.
* `Answers.answer` — one packet keeps it; `runReceiver_rule` carries such an invariant
  through all rounds, whatever the segmentation.
* `runReceiver_answered_iff` — **every packet is answered exactly once**, unless an
  MQTT 5 PUBLISH with a cut property length is among them, or one whose echo is too long.
-/

namespace Peer

open Framing

/-! ## The program -/

/-- `g_mode`, as far as `run_receiver` sees it. -/
inductive Mode
  /-- `M_SINK`. -/
  | sink
  /-- `M_ECHO`. -/
  | echo
  deriving DecidableEq

/-- The settings of a receiver.  `main` checks the QoS; the harness names the reply topic
after the run, well within `head[600]`. -/
structure Config where
  mode : Mode
  v5 : Bool
  replyTopic : List UInt8
  replyQos : ℕ
  /-- `g_sizes`. -/
  sizes : List ℕ
  tMeasure : UInt64
  tEnd : UInt64
  tStop : UInt64
  replyQos_le : replyQos ≤ 2
  replyTopic_le : replyTopic.length ≤ 589

/-- What `run_receiver` and its callees write.  No run counts `2 ^ 64` packets, so the
packet counters are natural numbers. -/
structure Receiver where
  out : Wbuf
  nextPid : UInt16
  /-- The bytes that went out on the socket. -/
  written : List UInt8
  recvTotal : ℕ
  recvWindow : ℕ
  echoedTotal : ℕ
  echoAcks : ℕ
  propsSeen : ℕ
  sizeMismatch : ℕ
  lat : Latency
  /-- `g_error`. -/
  error : Option String

/-- The state `run_receiver` starts in. -/
def Receiver.init : Receiver :=
  ⟨Wbuf.init, 0, [], 0, 0, 0, 0, 0, 0, Latency.init, none⟩

/-- `fail(what)`: the first error stays. -/
def Receiver.fail (r : Receiver) (what : String) (errno : Option String) : Receiver :=
  match r.error with
  | none => { r with error := some (what ++ ": " ++ errno.getD "protocol") }
  | some _ => r

/-- `read_stamp(p)`. -/
def readStamp (p : List UInt8) : UInt64 :=
  (p.take 8).foldr (fun b v => v <<< 8 ||| b.toUInt64) 0

/-- `put_str(out, s)`. -/
def putStr (s : List UInt8) : List UInt8 := put16 (UInt16.ofNat s.length) ++ s

/-- `in_window(now)`. -/
def inWindow (cfg : Config) (now : UInt64) : Bool := cfg.tMeasure ≤ now && now < cfg.tEnd

/-- The sink's part of a PUBLISH. -/
def Receiver.sink (cfg : Config) (now : UInt64) (r : Receiver) (i : Inbound) : Receiver :=
  let mismatch := cfg.sizes ≠ [] ∧ i.plen ∉ cfg.sizes
  { r with
    sizeMismatch := if mismatch then r.sizeMismatch + 1 else r.sizeMismatch
    recvWindow := if inWindow cfg now then r.recvWindow + 1 else r.recvWindow
    lat := if inWindow cfg now ∧ 8 ≤ i.plen then latRecord r.lat (readStamp i.payload) now
      else r.lat }

/-- The echo's part: same payload, reply topic, fresh packet id. -/
def Receiver.echo (cfg : Config) (r : Receiver) (i : Inbound) : Receiver :=
  let remaining := (2 + cfg.replyTopic.length + (if cfg.replyQos ≠ 0 then 2 else 0)
    + (if cfg.v5 then 1 else 0) + i.plen) % 2 ^ 32
  let nextPid := if cfg.replyQos ≠ 0 then if r.nextPid = 65535 then 1 else r.nextPid + 1
    else r.nextPid
  let head := ((0x30 : UInt8) ||| UInt8.ofNat cfg.replyQos <<< 1) :: putVarint remaining
    ++ putStr cfg.replyTopic ++ (if cfg.replyQos ≠ 0 then put16 nextPid else [])
    ++ (if cfg.v5 then [0] else [])
  { r with
    nextPid := nextPid
    out := (r.out.put head).put i.bytes
    echoedTotal := r.echoedTotal + 1 }

/-- An accepted PUBLISH: count it, acknowledge it, and what sink or echo do. -/
def Receiver.publish (cfg : Config) (now : UInt64) (r : Receiver) (i : Inbound) : Receiver :=
  let r := { r with
    propsSeen := if i.propsSeen then r.propsSeen + 1 else r.propsSeen
    recvTotal := r.recvTotal + 1
    out := if i.qos = 1 then putAck r.out 0x40 i.pid
      else if i.qos = 2 then putAck r.out 0x50 i.pid
      else r.out }
  match cfg.mode with
  | .sink => r.sink cfg now i
  | .echo => r.echo cfg i

/-- The loop body for one packet; `now` is the time after the `recv()`. -/
def Receiver.answer (cfg : Config) (now : UInt64) (r : Receiver) (pk : Packet) : Receiver :=
  let type := pk.hdr &&& 0xf0
  if type = 0x40 ∨ type = 0x70 then { r with echoAcks := r.echoAcks + 1 }
  else if type = 0x50 then
    if ackFailed cfg.v5 pk.mem pk.len then r
    else { r with out := putAck r.out 0x62 (ackPid pk.mem pk.len) }
  else if type = 0x60 then { r with out := putAck r.out 0x70 (ackPid pk.mem pk.len) }
  else if type ≠ 0x30 then r
  else
    match parsePublish cfg.v5 pk.hdr pk.mem pk.len with
    | none => r.fail "malformed PUBLISH" none
    | some i => r.publish cfg now i

/-- What the outside does during one round of the loop. -/
structure Round where
  /-- The clock at the head of the loop. -/
  now : UInt64
  ready : Ready
  /-- The clock after a `recv()`. -/
  arrival : UInt64
  /-- Where `send` fails for good, if it does. -/
  cut : Option ℕ
  /-- The text of `errno` after a failed call. -/
  errno : Option String

/-- `run_receiver(rb)`, for as long as the rounds last. -/
def runReceiver (cfg : Config) : List Round → Rbuf → Receiver → Rbuf × Receiver
  | [], b, r => (b, r)
  | round :: rounds, b, r =>
    if cfg.tStop ≤ round.now then (b, r)
    else
      let (b, rc) := rbufFill b round.ready
      if rc < 0 then (b, r.fail "recv" round.errno)
      else if rc = 0 then runReceiver cfg rounds b r
      else
        let (b, r, got) := drain (Receiver.answer cfg round.arrival) b r
        if got < 0 then (b, r.fail "malformed packet length" none)
        else
          let (out, sent, rc) := r.out.flush round.cut
          let r := { r with out := out, written := r.written ++ sent }
          if rc < 0 then (b, r.fail "send" round.errno) else runReceiver cfg rounds b r

/-! ## What is due -/

/-- A packet's header and bytes. -/
abbrev View := UInt8 × List UInt8

/-- The packet is a PUBLISH. -/
def IsPublishType (pk : View) : Prop := pk.1 &&& 0xf0 = 0x30

instance (pk : View) : Decidable (IsPublishType pk) := inferInstanceAs (Decidable (_ = _))

/-- The packet id and payload of a PUBLISH that has the layout of one. -/
def wellFormed (cfg : Config) (pk : View) : Option (UInt16 × List UInt8) :=
  if IsPublishType pk then readPublish cfg.v5 (qosOf pk.1) pk.2 else none

/-- A PUBLISH that has not. -/
def Malformed (cfg : Config) (pk : View) : Prop :=
  IsPublishType pk ∧ readPublish cfg.v5 (qosOf pk.1) pk.2 = none

instance (cfg : Config) (pk : View) : Decidable (Malformed cfg pk) :=
  inferInstanceAs (Decidable (_ ∧ _))

/-- The packet id of the echo number `j`, counted from 0. -/
def echoId (j : ℕ) : UInt16 := UInt16.ofNat (j % 65535 + 1)

/-- The echo number `j` of a payload. -/
def echoPacket (cfg : Config) (j : ℕ) (payload : List UInt8) : View :=
  ((0x30 : UInt8) ||| UInt8.ofNat cfg.replyQos <<< 1,
    putStr cfg.replyTopic ++ (if cfg.replyQos = 0 then [] else put16 (echoId j))
      ++ (if cfg.v5 then [0] else []) ++ payload)

/-- The acknowledgement of a PUBLISH: PUBACK at QoS 1, PUBREC at QoS 2. -/
def publishAck (qos : ℕ) (pid : UInt16) : List UInt8 :=
  if qos = 1 then ackBytes 0x40 pid else if qos = 2 then ackBytes 0x50 pid else []

/-- What is due for a packet, when `j` payloads have been echoed before it. -/
def response (cfg : Config) (j : ℕ) (pk : View) : List UInt8 :=
  match wellFormed cfg pk with
  | some (pid, payload) =>
    publishAck (qosOf pk.1) pid ++
      match cfg.mode with
      | .sink => []
      | .echo => packetBytes (echoPacket cfg j payload)
  | none =>
    if pk.1 &&& 0xf0 = 0x50 then
      if Refused cfg.v5 pk.2 then [] else ackBytes 0x62 (idOf pk.2)
    else if pk.1 &&& 0xf0 = 0x60 then ackBytes 0x70 (idOf pk.2)
    else []

/-- How many PUBLISHes have the layout of one. -/
def publishes (cfg : Config) (pkts : List View) : ℕ :=
  pkts.countP fun pk => (wellFormed cfg pk).isSome

/-- How many of them are echoed. -/
def echoes (cfg : Config) (pkts : List View) : ℕ :=
  match cfg.mode with
  | .sink => 0
  | .echo => publishes cfg pkts

/-- How many of them have a payload of none of the listed sizes. -/
def mismatches (cfg : Config) (pkts : List View) : ℕ :=
  match cfg.mode with
  | .sink =>
    pkts.countP fun pk => decide (∃ i ∈ wellFormed cfg pk, cfg.sizes ≠ [] ∧ i.2.length ∉ cfg.sizes)
  | .echo => 0

/-- PUBACK and PUBCOMP. -/
def acks (pkts : List View) : ℕ :=
  pkts.countP fun pk => decide (pk.1 &&& 0xf0 = 0x40 ∨ pk.1 &&& 0xf0 = 0x70)

/-- The error that is left: a malformed PUBLISH, if there was one. -/
def errorOf (cfg : Config) (pkts : List View) : Option String :=
  if pkts.any fun pk => decide (Malformed cfg pk) then some "malformed PUBLISH: protocol" else none

/-- What is due for a list of packets, when `j` payloads have been echoed before: their
responses in order. -/
def responses (cfg : Config) : ℕ → List View → List UInt8
  | _, [] => []
  | j, pk :: pkts => response cfg j pk ++ responses cfg (j + echoes cfg [pk]) pkts

theorem publishes_append (cfg : Config) (xs ys : List View) :
    publishes cfg (xs ++ ys) = publishes cfg xs + publishes cfg ys := List.countP_append

theorem echoes_append (cfg : Config) (xs ys : List View) :
    echoes cfg (xs ++ ys) = echoes cfg xs + echoes cfg ys := by
  rw [echoes, echoes, echoes]
  cases cfg.mode
  · rfl
  · exact publishes_append cfg xs ys

theorem mismatches_append (cfg : Config) (xs ys : List View) :
    mismatches cfg (xs ++ ys) = mismatches cfg xs + mismatches cfg ys := by
  rw [mismatches, mismatches, mismatches]
  cases cfg.mode
  · exact List.countP_append
  · rfl

theorem acks_append (xs ys : List View) : acks (xs ++ ys) = acks xs + acks ys :=
  List.countP_append

theorem errorOf_append_of_not {cfg : Config} {pkts : List View} {pk : View}
    (h : ¬ Malformed cfg pk) : errorOf cfg (pkts ++ [pk]) = errorOf cfg pkts := by
  simp only [errorOf, List.any_append, List.any_cons, List.any_nil, h, decide_false, Bool.or_false]

theorem errorOf_append_of_malformed {cfg : Config} {pkts : List View} {pk : View}
    (h : Malformed cfg pk) :
    errorOf cfg (pkts ++ [pk]) = some "malformed PUBLISH: protocol" := by
  simp only [errorOf, List.any_append, List.any_cons, h, decide_true, Bool.true_or, Bool.or_true,
    if_true]

theorem responses_append (cfg : Config) (j : ℕ) (xs ys : List View) :
    responses cfg j (xs ++ ys) =
      responses cfg j xs ++ responses cfg (j + echoes cfg xs) ys := by
  induction xs generalizing j with
  | nil =>
    have h0 : echoes cfg [] = 0 := by rw [echoes]; cases cfg.mode <;> rfl
    rw [h0]
    rfl
  | cons pk xs ih =>
    have hcons : echoes cfg (pk :: xs) = echoes cfg [pk] + echoes cfg xs :=
      echoes_append cfg [pk] xs
    rw [List.cons_append, responses, responses, ih, hcons, List.append_assoc, Nat.add_assoc]

/-! ## The echo is a PUBLISH -/

theorem toNat_echoId (j : ℕ) : (echoId j).toNat = j % 65535 + 1 := by
  rw [echoId, UInt16.toNat_ofNat']
  omega

/-- The reply ids run through 1..65535 and never take 0. -/
theorem echoId_cyclic (j : ℕ) :
    echoId 0 = 1 ∧ echoId (j + 1) = (if echoId j = 65535 then 1 else echoId j + 1) ∧
      echoId j ≠ 0 := by
  have hone : (1 : UInt16).toNat = 1 := rfl
  have hlast : (65535 : UInt16).toNat = 65535 := rfl
  have h65535 : echoId j = 65535 ↔ j % 65535 = 65534 := by
    rw [← UInt16.toNat_inj, toNat_echoId]
    omega
  refine ⟨rfl, ?_, ?_⟩
  · split
    · next h =>
      rw [h65535] at h
      rw [← UInt16.toNat_inj, toNat_echoId]
      omega
    · next h =>
      rw [h65535] at h
      rw [← UInt16.toNat_inj, UInt16.toNat_add, toNat_echoId, toNat_echoId]
      omega
  · intro h0
    have := toNat_echoId j
    rw [h0] at this
    norm_num at this

/-- An echo is a PUBLISH on the reply topic, with the payload it echoes. -/
theorem isPublish_echo (cfg : Config) (j : ℕ) (payload : List UInt8) :
    qosOf (echoPacket cfg j payload).1 = cfg.replyQos ∧
      IsPublish cfg.v5 cfg.replyQos (echoPacket cfg j payload).2
        (if cfg.replyQos = 0 then 0 else echoId j) payload := by
  have htopic := cfg.replyTopic_le
  have hqos := cfg.replyQos_le
  refine ⟨?_, UInt16.ofNat cfg.replyTopic.length, cfg.replyTopic,
    if cfg.replyQos = 0 then [] else put16 (echoId j), if cfg.v5 then [0] else [], rfl, ?_, ?_, ?_⟩
  · unfold echoPacket
    simp only
    interval_cases cfg.replyQos <;> rfl
  · rw [UInt16.toNat_ofNat_of_lt' (lt_of_le_of_lt htopic (by decide))]
  · split <;> simp
  · cases cfg.v5 with
    | false => rfl
    | true => exact ⟨[0], [], rfl, .last (by decide), by decide⟩

/-! ## One packet -/

/-- What the loop keeps: written and waiting bytes are the responses to the packets
handled, the next reply id is the due one, and the counters are the packet counts. -/
structure Answers (cfg : Config) (done : List View) (r : Receiver) : Prop where
  bytes : r.written ++ r.out.contents = responses cfg 0 done
  nextPid : cfg.replyQos ≠ 0 →
    (if r.nextPid = 65535 then 1 else r.nextPid + 1) = echoId (echoes cfg done)
  recvTotal : r.recvTotal = publishes cfg done
  echoedTotal : r.echoedTotal = echoes cfg done
  echoAcks : r.echoAcks = acks done
  sizeMismatch : r.sizeMismatch = mismatches cfg done
  error : r.error = errorOf cfg done

theorem answers_init (cfg : Config) : Answers cfg [] Receiver.init where
  bytes := rfl
  nextPid _ := by
    have h0 : echoes cfg [] = 0 := by rw [echoes]; cases cfg.mode <;> rfl
    rw [h0]
    rfl
  recvTotal := rfl
  echoedTotal := by rw [echoes]; cases cfg.mode <;> rfl
  echoAcks := rfl
  sizeMismatch := by rw [mismatches]; cases cfg.mode <;> rfl
  error := rfl

theorem not_isPublishType {pk : View} {type : UInt8} (h : pk.1 &&& 0xf0 = type)
    (ht : type ≠ 0x30) : ¬ IsPublishType pk := fun hp => ht (h.symm.trans hp)

theorem response_of_none {cfg : Config} {pk : View} (hwf : wellFormed cfg pk = none) (j : ℕ) :
    response cfg j pk =
      if pk.1 &&& 0xf0 = 0x50 then
        if Refused cfg.v5 pk.2 then [] else ackBytes 0x62 (idOf pk.2)
      else if pk.1 &&& 0xf0 = 0x60 then ackBytes 0x70 (idOf pk.2)
      else [] := by
  simp only [response, hwf]

/-- A packet that is no PUBLISH, or a malformed one, is not counted as one. -/
theorem counts_of_none {cfg : Config} {pk : View} (hwf : wellFormed cfg pk = none) :
    publishes cfg [pk] = 0 ∧ echoes cfg [pk] = 0 ∧ mismatches cfg [pk] = 0 := by
  have hp : publishes cfg [pk] = 0 := by simp [publishes, hwf]
  refine ⟨hp, ?_, ?_⟩
  · unfold echoes
    cases cfg.mode
    · rfl
    · exact hp
  · unfold mismatches
    cases cfg.mode
    · simp [hwf]
    · rfl

/-- A packet that is no PUBLISH is answered as it should be when its response goes out
and it is counted if it is an acknowledgement. -/
theorem Answers.other {cfg : Config} {done : List View} {r r' : Receiver} {pk : View}
    (h : Answers cfg done r) (hpk : ¬ IsPublishType pk)
    (hbytes : r'.written ++ r'.out.contents =
      r.written ++ r.out.contents ++ response cfg (0 + echoes cfg done) pk)
    (hacks : r'.echoAcks = r.echoAcks + acks [pk])
    (hsame : r'.nextPid = r.nextPid ∧ r'.recvTotal = r.recvTotal ∧
      r'.echoedTotal = r.echoedTotal ∧ r'.sizeMismatch = r.sizeMismatch ∧ r'.error = r.error) :
    Answers cfg (done ++ [pk]) r' := by
  obtain ⟨h1, h2, h3, h4, h5⟩ := hsame
  obtain ⟨hp, he, hm⟩ := counts_of_none (show wellFormed cfg pk = none from if_neg hpk)
  have hmal : ¬ Malformed cfg pk := fun h => hpk h.1
  exact
    { bytes := by
        rw [hbytes, h.bytes, responses_append, responses, responses, List.append_nil]
      nextPid := fun hq => by rw [h1, echoes_append, he, Nat.add_zero, h.nextPid hq]
      recvTotal := by rw [h2, publishes_append, hp, Nat.add_zero, h.recvTotal]
      echoedTotal := by rw [h3, echoes_append, he, Nat.add_zero, h.echoedTotal]
      echoAcks := by rw [hacks, acks_append, h.echoAcks]
      sizeMismatch := by rw [h4, mismatches_append, hm, Nat.add_zero, h.sizeMismatch]
      error := by rw [h5, h.error, errorOf_append_of_not hmal] }

/-- What `parse_publish` makes of a packet whose property length is not cut. -/
theorem parsePublish_wellFormed {cfg : Config} {pk : Packet} (htype : IsPublishType pk.view)
    (hcut : ¬ Cut cfg.v5 (qosOf pk.hdr) pk.body) :
    (parsePublish cfg.v5 pk.hdr pk.mem pk.len).map (fun i => (i.pid, i.bytes)) =
      wellFormed cfg pk.view := by
  rw [parsePublish_view cfg.v5 pk.hdr pk.len_le, wellFormed, if_pos htype]
  exact acceptPublish_eq hcut

/-- A malformed PUBLISH is answered by setting the error. -/
theorem Answers.malformed {cfg : Config} {done : List View} {r : Receiver} {pk : View}
    (h : Answers cfg done r) (hpk : Malformed cfg pk) :
    Answers cfg (done ++ [pk]) (r.fail "malformed PUBLISH" none) := by
  have hwf : wellFormed cfg pk = none := by rw [wellFormed, if_pos hpk.1, hpk.2]
  have htype : pk.1 &&& 0xf0 = 0x30 := hpk.1
  obtain ⟨hp, he, hm⟩ := counts_of_none hwf
  have hk : acks [pk] = 0 := by simp [acks, htype]
  have hresp : ∀ j, response cfg j pk = [] := by
    intro j
    simp only [response, hwf, htype]
    rfl
  have hfail : r.fail "malformed PUBLISH" none =
      { r with error := some "malformed PUBLISH: protocol" } := by
    have herr := h.error
    rw [errorOf] at herr
    unfold Receiver.fail
    split at herr <;> simp only [herr]
    · cases r
      simp_all
    · rfl
  rw [hfail]
  exact
    { bytes := by
        rw [responses_append, responses, responses, List.append_nil, hresp, List.append_nil]
        exact h.bytes
      nextPid := fun hq => by rw [echoes_append, he, Nat.add_zero]; exact h.nextPid hq
      recvTotal := by rw [publishes_append, hp, Nat.add_zero]; exact h.recvTotal
      echoedTotal := by rw [echoes_append, he, Nat.add_zero]; exact h.echoedTotal
      echoAcks := by rw [acks_append, hk, Nat.add_zero]; exact h.echoAcks
      sizeMismatch := by rw [mismatches_append, hm, Nat.add_zero]; exact h.sizeMismatch
      error := (errorOf_append_of_malformed hpk).symm }

/-- The echo's bytes are the framed echo packet. -/
theorem Receiver.echo_out {cfg : Config} {r : Receiver} {i : Inbound} {j : ℕ}
    (hlen : i.bytes.length = i.plen) (hmax : i.plen ≤ maxRemaining)
    (hpid : cfg.replyQos ≠ 0 → (if r.nextPid = 65535 then 1 else r.nextPid + 1) = echoId j) :
    (r.echo cfg i).out.contents = r.out.contents ++ packetBytes (echoPacket cfg j i.bytes) := by
  have htopic := cfg.replyTopic_le
  have hsize : (echoPacket cfg j i.bytes).2.length = (2 + cfg.replyTopic.length
      + (if cfg.replyQos ≠ 0 then 2 else 0) + (if cfg.v5 then 1 else 0) + i.plen) % 2 ^ 32 := by
    rw [maxRemaining] at hmax
    rw [Nat.mod_eq_of_lt (by split <;> split <;> omega), echoPacket, ← hlen]
    simp only [List.length_append, putStr, length_put16]
    cases cfg.v5 <;> by_cases hq : cfg.replyQos = 0 <;> simp [hq]
  rw [packetBytes, hsize]
  by_cases hq : cfg.replyQos = 0
  · simp [Receiver.echo, echoPacket, hq]
  · have hpid' := hpid hq
    simp [Receiver.echo, echoPacket, hq, hpid']

/-- The acknowledgement of an accepted PUBLISH. -/
def Receiver.acknowledge (r : Receiver) (i : Inbound) : Wbuf :=
  if i.qos = 1 then putAck r.out 0x40 i.pid
  else if i.qos = 2 then putAck r.out 0x50 i.pid
  else r.out

theorem Receiver.contents_acknowledge (r : Receiver) (i : Inbound) :
    (r.acknowledge i).contents = r.out.contents ++ publishAck i.qos i.pid := by
  rw [acknowledge, publishAck]
  split
  · exact contents_putAck _ _ _
  · split
    · exact contents_putAck _ _ _
    · exact (List.append_nil _).symm

/-- An accepted PUBLISH, counted and acknowledged: what both modes go on from. -/
def Receiver.accept (r : Receiver) (i : Inbound) : Receiver :=
  { r with
    propsSeen := if i.propsSeen then r.propsSeen + 1 else r.propsSeen
    recvTotal := r.recvTotal + 1
    out := r.acknowledge i }

/-- A well-formed PUBLISH has the type of one, is not malformed and acknowledges nothing. -/
theorem counts_of_wellFormed {cfg : Config} {pk : View} {msg : UInt16 × List UInt8}
    (hwf : wellFormed cfg pk = some msg) :
    ¬ Malformed cfg pk ∧ acks [pk] = 0 ∧ publishes cfg [pk] = 1 := by
  have htype : IsPublishType pk := by
    by_contra hn
    rw [wellFormed, if_neg hn] at hwf
    cases hwf
  have h30 : pk.1 &&& 0xf0 = 0x30 := htype
  refine ⟨?_, by simp [acks, h30], by simp [publishes, hwf]⟩
  intro hm
  rw [wellFormed, if_pos hm.1, hm.2] at hwf
  cases hwf

/-- The sink answers a well-formed PUBLISH by its acknowledgement and its counts. -/
theorem Answers.sink {cfg : Config} {done : List View} {r : Receiver} (h : Answers cfg done r)
    (hmode : cfg.mode = .sink) {pk : View} {i : Inbound}
    (hwf : wellFormed cfg pk = some (i.pid, i.bytes)) (hqos : i.qos = qosOf pk.1)
    (hlen : i.bytes.length = i.plen) (now : UInt64) :
    Answers cfg (done ++ [pk]) ((r.accept i).sink cfg now i) := by
  obtain ⟨hmal, hack, hp⟩ := counts_of_wellFormed hwf
  have he : ∀ pkts, echoes cfg pkts = 0 := by
    intro pkts
    rw [echoes, hmode]
  have hm : mismatches cfg [pk] = if cfg.sizes ≠ [] ∧ i.plen ∉ cfg.sizes then 1 else 0 := by
    simp [mismatches, hmode, hwf, hlen, List.countP_cons]
  have hresp : response cfg (0 + echoes cfg done) pk = publishAck i.qos i.pid := by
    simp only [response, hwf, hmode, hqos, List.append_nil]
  have hcontents := r.contents_acknowledge i
  unfold Receiver.sink
  exact
    { bytes := by
        rw [responses_append, responses, responses, List.append_nil, hresp, ← h.bytes,
          List.append_assoc, ← hcontents]
        rfl
      nextPid := fun hq => by rw [he, ← he done]; exact h.nextPid hq
      recvTotal := by rw [publishes_append, hp]; exact congrArg (· + 1) h.recvTotal
      echoedTotal := by rw [he, ← he done]; exact h.echoedTotal
      echoAcks := by rw [acks_append, hack, Nat.add_zero]; exact h.echoAcks
      sizeMismatch := by
        rw [mismatches_append, hm, ← h.sizeMismatch]
        simp only
        split <;> rfl
      error := by rw [errorOf_append_of_not hmal]; exact h.error }

/-- The echo answers it by its acknowledgement and the echoed message. -/
theorem Answers.echo {cfg : Config} {done : List View} {r : Receiver} (h : Answers cfg done r)
    (hmode : cfg.mode = .echo) {pk : View} {i : Inbound}
    (hwf : wellFormed cfg pk = some (i.pid, i.bytes)) (hqos : i.qos = qosOf pk.1)
    (hlen : i.bytes.length = i.plen) (hmax : i.plen ≤ maxRemaining) :
    Answers cfg (done ++ [pk]) ((r.accept i).echo cfg i) := by
  obtain ⟨hmal, hack, hp⟩ := counts_of_wellFormed hwf
  have he : echoes cfg [pk] = 1 := by
    rw [echoes, hmode]
    exact hp
  have hm : ∀ pkts, mismatches cfg pkts = 0 := by
    intro pkts
    rw [mismatches, hmode]
  have hresp : response cfg (0 + echoes cfg done) pk =
      publishAck i.qos i.pid ++ packetBytes (echoPacket cfg (echoes cfg done) i.bytes) := by
    simp only [response, hwf, hmode, hqos, Nat.zero_add]
  have hpid : cfg.replyQos ≠ 0 →
      (if (r.accept i).nextPid = 65535 then 1 else (r.accept i).nextPid + 1)
        = echoId (echoes cfg done) := h.nextPid
  have hout := Receiver.echo_out hlen hmax hpid
  have hcontents : (r.accept i).out.contents = r.out.contents ++ publishAck i.qos i.pid :=
    r.contents_acknowledge i
  exact
    { bytes := by
        rw [responses_append, responses, responses, List.append_nil, hresp, ← h.bytes, hout,
          hcontents]
        simp only [Receiver.echo, Receiver.accept, List.append_assoc]
      nextPid := fun hq => by
        have hnext : ((r.accept i).echo cfg i).nextPid = echoId (echoes cfg done) := by
          rw [← hpid hq, Receiver.echo]
          simp only [hq, ne_eq, not_false_eq_true, if_true]
        rw [hnext, echoes_append, he]
        exact (echoId_cyclic (echoes cfg done)).2.1.symm
      recvTotal := by rw [publishes_append, hp]; exact congrArg (· + 1) h.recvTotal
      echoedTotal := by rw [echoes_append, he]; exact congrArg (· + 1) h.echoedTotal
      echoAcks := by rw [acks_append, hack, Nat.add_zero]; exact h.echoAcks
      sizeMismatch := by rw [hm, ← hm done]; exact h.sizeMismatch
      error := by rw [errorOf_append_of_not hmal]; exact h.error }

/-- A well-formed PUBLISH is answered by its acknowledgement, its counts and its echo. -/
theorem Answers.publish {cfg : Config} {done : List View} {r : Receiver} (h : Answers cfg done r)
    {pk : View} {i : Inbound} (hwf : wellFormed cfg pk = some (i.pid, i.bytes))
    (hqos : i.qos = qosOf pk.1) (hlen : i.bytes.length = i.plen) (hmax : i.plen ≤ maxRemaining)
    (now : UInt64) : Answers cfg (done ++ [pk]) (r.publish cfg now i) := by
  unfold Receiver.publish
  cases hmode : cfg.mode with
  | sink => exact h.sink hmode hwf hqos hlen now
  | echo => exact h.echo hmode hwf hqos hlen hmax

/-- **One packet keeps the invariant**, whatever type it has. -/
theorem Answers.answer {cfg : Config} {done : List View} {r : Receiver} (h : Answers cfg done r)
    {pk : Packet} (hmax : pk.len ≤ maxRemaining)
    (hcut : IsPublishType pk.view → ¬ Cut cfg.v5 (qosOf pk.hdr) pk.body) (now : UInt64) :
    Answers cfg (done ++ [pk.view]) (r.answer cfg now pk) := by
  have hbody : pk.mem.take pk.len = pk.body := rfl
  have hnone : ¬ IsPublishType pk.view → wellFormed cfg pk.view = none := fun hn => if_neg hn
  unfold Receiver.answer
  by_cases hack : pk.hdr &&& 0xf0 = 0x40 ∨ pk.hdr &&& 0xf0 = 0x70
  · have hpub : ¬ IsPublishType pk.view := by
      rcases hack with h40 | h70
      · exact not_isPublishType h40 (by decide)
      · exact not_isPublishType h70 (by decide)
    have hresp : response cfg (0 + echoes cfg done) pk.view = [] := by
      have h50 : pk.hdr &&& 0xf0 ≠ 0x50 := by
        rcases hack with h40 | h70
        · rw [h40]; decide
        · rw [h70]; decide
      have h60 : pk.hdr &&& 0xf0 ≠ 0x60 := by
        rcases hack with h40 | h70
        · rw [h40]; decide
        · rw [h70]; decide
      rw [response_of_none (hnone hpub)]
      exact (if_neg h50).trans (if_neg h60)
    rw [if_pos hack]
    refine h.other hpub (by rw [hresp, List.append_nil]) ?_ ⟨rfl, rfl, rfl, rfl, rfl⟩
    simp [acks, Packet.view, hack]
  · rw [if_neg hack]
    have hnoack : acks [pk.view] = 0 := by simp [acks, Packet.view, hack]
    by_cases h50 : pk.hdr &&& 0xf0 = 0x50
    · have hpub : ¬ IsPublishType pk.view := not_isPublishType h50 (by decide)
      have hresp : response cfg (0 + echoes cfg done) pk.view =
          if Refused cfg.v5 pk.body then [] else ackBytes 0x62 (idOf pk.body) := by
        rw [response_of_none (hnone hpub)]
        exact if_pos h50
      rw [if_pos h50, ackFailed_eq pk.len_le, ackPid_eq pk.len_le, hbody]
      by_cases hf : Refused cfg.v5 pk.body
      · rw [if_pos (by simpa using hf)]
        exact h.other hpub (by rw [hresp, if_pos hf, List.append_nil]) (by rw [hnoack]; rfl)
          ⟨rfl, rfl, rfl, rfl, rfl⟩
      · rw [if_neg (by simpa using hf)]
        exact h.other hpub (by rw [hresp, if_neg hf, contents_putAck, List.append_assoc])
          (by rw [hnoack]; rfl) ⟨rfl, rfl, rfl, rfl, rfl⟩
    · rw [if_neg h50]
      by_cases h60 : pk.hdr &&& 0xf0 = 0x60
      · have hpub : ¬ IsPublishType pk.view := not_isPublishType h60 (by decide)
        have hresp : response cfg (0 + echoes cfg done) pk.view = ackBytes 0x70 (idOf pk.body) := by
          rw [response_of_none (hnone hpub)]
          exact (if_neg h50).trans (if_pos h60)
        rw [if_pos h60, ackPid_eq pk.len_le, hbody]
        exact h.other hpub (by rw [hresp, contents_putAck, List.append_assoc])
          (by rw [hnoack]; rfl) ⟨rfl, rfl, rfl, rfl, rfl⟩
      · rw [if_neg h60]
        by_cases h30 : pk.hdr &&& 0xf0 = 0x30
        · have hview := parsePublish_wellFormed h30 (hcut h30)
          rw [if_neg (not_not.2 h30)]
          cases hparse : parsePublish cfg.v5 pk.hdr pk.mem pk.len with
          | none =>
            rw [hparse, Option.map_none] at hview
            have hread : readPublish cfg.v5 (qosOf pk.hdr) pk.body = none := by
              rw [wellFormed, if_pos (show IsPublishType pk.view from h30)] at hview
              exact hview.symm
            exact h.malformed ⟨h30, hread⟩
          | some i =>
            rw [hparse, Option.map_some] at hview
            obtain ⟨hqos, hlen, hle⟩ := parsePublish_some hparse pk.len_le
            exact h.publish hview.symm hqos hlen (hle.trans hmax) now
        · have hpub : ¬ IsPublishType pk.view := h30
          have hresp : response cfg (0 + echoes cfg done) pk.view = [] := by
            rw [response_of_none (hnone hpub)]
            exact (if_neg h50).trans (if_neg h60)
          rw [if_pos h30]
          exact h.other hpub (by rw [hresp, List.append_nil]) (by rw [hnoack]; rfl)
            ⟨rfl, rfl, rfl, rfl, rfl⟩

/-! ## All rounds -/

/-- The bytes that arrive in a round. -/
def Round.bytes (round : Round) : List UInt8 :=
  match round.ready with
  | .data chunk => chunk
  | _ => []

/-- Rounds before `t_stop` in which no call fails: `poll` may time out, `recv` may have
to be asked again, and what it returns fits the free space. -/
def Calm (cfg : Config) (b : Rbuf) : List Round → Prop
  | [] => True
  | round :: rounds =>
    round.now < cfg.tStop ∧ round.cut = none ∧
      match round.ready with
      | .data chunk =>
        chunk ≠ [] ∧ chunk.length ≤ b.prepare.room ∧ Calm cfg (afterChunk b chunk) rounds
      | .timeout | .pollFailed true | .recvFailed true => Calm cfg b.prepare rounds
      | .pollFailed false | .recvFailed false => False

theorem foldl_answer {cfg : Config} {P : List View → Receiver → Prop} {pkts : List View}
    (hanswer : ∀ done r now (pk : Packet), pk.view ∈ pkts → P done r →
      P (done ++ [pk.view]) (r.answer cfg now pk))
    (now : UInt64) (pks : List Packet) (hmem : ∀ pk ∈ pks, pk.view ∈ pkts) {done : List View}
    {r : Receiver} (h : P done r) :
    P (done ++ pks.map Packet.view) (pks.foldl (Receiver.answer cfg now) r) := by
  induction pks generalizing done r with
  | nil => simpa using h
  | cons pk pks ih =>
    have hstep := hanswer done r now pk (hmem pk (by simp)) h
    have hrest := ih (fun pk' hpk' => hmem pk' (by simp [hpk'])) hstep
    simpa using hrest

/-- **What every packet and every flush keeps, the whole loop keeps**, whatever the
segmentation: it handles exactly the packets of the stream. -/
theorem runReceiver_rule {cfg : Config} {P : List View → Receiver → Prop} {pkts : List View}
    (hlen : ∀ pk ∈ pkts, pk.2.length ≤ maxRemaining)
    (hanswer : ∀ done r now (pk : Packet), pk.view ∈ pkts → P done r →
      P (done ++ [pk.view]) (r.answer cfg now pk))
    (hflush : ∀ done (r : Receiver) (out : Wbuf), out.contents = [] → P done r →
      P done { r with out := out, written := r.written ++ r.out.contents })
    {rounds : List Round} {b : Rbuf} (hm : parse b.unread = .more) (hcalm : Calm cfg b rounds)
    {items : List View} (hmem : ∀ pk ∈ items, pk ∈ pkts)
    (hs : b.unread ++ rounds.flatMap Round.bytes = items.flatMap packetBytes)
    {done : List View} {r : Receiver} (hout : r.out.contents = []) (h : P done r) :
    P (done ++ items) (runReceiver cfg rounds b r).2 ∧
      (runReceiver cfg rounds b r).2.out.contents = [] := by
  induction rounds generalizing b items done r with
  | nil =>
    obtain rfl : items = [] :=
      eq_nil_of_more hm (fun pk hpk => hlen pk (hmem pk hpk)) (by simpa using hs)
    rw [List.append_nil]
    exact ⟨h, hout⟩
  | cons round rounds ih =>
    obtain ⟨hnow, hcut, hready⟩ := hcalm
    rw [List.flatMap_cons, Round.bytes] at hs
    rw [runReceiver, if_neg (UInt64.not_le.2 hnow)]
    have hquiet : Calm cfg b.prepare rounds →
        b.unread ++ rounds.flatMap Round.bytes = items.flatMap packetBytes →
        P (done ++ items) (runReceiver cfg rounds b.prepare r).2 ∧
          (runReceiver cfg rounds b.prepare r).2.out.contents = [] := fun hcalm hs =>
      ih (by rwa [Rbuf.unread_prepare]) hcalm hmem (by rwa [Rbuf.unread_prepare]) hout h
    cases hr : round.ready with
    | timeout =>
      rw [hr] at hready hs
      exact hquiet hready hs
    | pollFailed eintr =>
      rw [hr] at hready hs
      cases eintr with
      | false => exact hready.elim
      | true => exact hquiet hready hs
    | recvFailed again =>
      rw [hr] at hready hs
      cases again with
      | false => exact hready.elim
      | true => exact hquiet hready hs
    | data chunk =>
      rw [hr] at hready hs
      obtain ⟨hne, hroom, hrest⟩ := hready
      have hstream : b.unread ++ chunk ++ rounds.flatMap Round.bytes = items.flatMap packetBytes := by
        rw [List.append_assoc]
        exact hs
      obtain ⟨b₁, pks, rest, hrun, rfl, hleft, -, hm₁, rfl⟩ :=
        drain_rbufFill (Receiver.answer cfg round.arrival) hne hroom
          (fun pk hpk => hlen pk (hmem pk hpk)) hstream r
      have hP := foldl_answer hanswer round.arrival pks
        (fun pk hpk => hmem _ (List.mem_append_left _ (List.mem_map_of_mem hpk))) h
      obtain ⟨out, hflushed, hempty⟩ := (pks.foldl (Receiver.answer cfg round.arrival) r).out.flush_eq
      have hpos : (0 : ℤ) < chunk.length := by
        have := List.length_pos_iff.2 hne
        omega
      rw [rbufFill_data b hne hroom] at hrun ⊢
      simp only at hrun ⊢
      rw [if_neg (by omega), if_neg (by omega), hrun]
      simp only [lt_irrefl, if_false, hcut]
      rw [hflushed]
      simp only [lt_irrefl, if_false]
      have hfin := ih hm₁ hrest (fun pk hpk => hmem pk (List.mem_append_right _ hpk)) hleft hempty
        (hflush _ _ out hempty hP)
      rwa [← List.append_assoc]

/-! ## Every packet is answered exactly once -/

/-- A PUBLISH with a cut property length. -/
def CutPublish (cfg : Config) (pk : View) : Prop :=
  IsPublishType pk ∧ Cut cfg.v5 (qosOf pk.1) pk.2

instance (cfg : Config) (pk : View) : Decidable (CutPublish cfg pk) :=
  inferInstanceAs (Decidable (_ ∧ _))

/-- Every packet has been answered exactly once: the bytes written are the responses in
order, the counters are the packet counts, and the error tells of a malformed PUBLISH. -/
structure Answered (cfg : Config) (pkts : List View) (r : Receiver) : Prop where
  written : r.written = responses cfg 0 pkts
  recvTotal : r.recvTotal = publishes cfg pkts
  echoedTotal : r.echoedTotal = echoes cfg pkts
  echoAcks : r.echoAcks = acks pkts
  sizeMismatch : r.sizeMismatch = mismatches cfg pkts
  error : r.error = errorOf cfg pkts

/-- A PUBLISH whose echo has a remaining length that MQTT cannot spell in four bytes. -/
def LongEcho (cfg : Config) (pk : View) : Prop :=
  cfg.mode = .echo ∧ ∃ m ∈ wellFormed cfg pk,
    maxRemaining < 2 + cfg.replyTopic.length + (if cfg.replyQos = 0 then 0 else 2) +
      (if cfg.v5 then 1 else 0) + m.2.length

instance (cfg : Config) (pk : View) : Decidable (LongEcho cfg pk) :=
  inferInstanceAs (Decidable (_ ∧ _))

/-- Every packet has been answered exactly once, and a reader of the socket finds a packet in
every echo, whatever follows it. -/
structure Relayed (cfg : Config) (pkts : List View) (r : Receiver) : Prop
    extends Answered cfg pkts r where
  echoed : cfg.mode = .echo → ∀ pk ∈ pkts, ∀ m ∈ wellFormed cfg pk, ∀ j,
    Frames parse packetBytes (echoPacket cfg j m.2)

theorem length_echoPacket (cfg : Config) (j : ℕ) (payload : List UInt8) :
    (echoPacket cfg j payload).2.length = 2 + cfg.replyTopic.length +
      (if cfg.replyQos = 0 then 0 else 2) + (if cfg.v5 then 1 else 0) + payload.length := by
  rw [echoPacket, List.length_append, List.length_append, List.length_append, putStr,
    List.length_append, length_put16]
  split_ifs <;> simp

/-- An echo is a packet for its reader exactly when its length can be spelled. -/
theorem frames_echo_iff {cfg : Config} {pkts : List View} : (∀ pk ∈ pkts, ¬ LongEcho cfg pk) ↔
    (cfg.mode = .echo → ∀ pk ∈ pkts, ∀ m ∈ wellFormed cfg pk, ∀ j,
      Frames parse packetBytes (echoPacket cfg j m.2)) := by
  constructor
  · intro h hmode pk hpk m hm j
    refine parse_frames ?_
    rw [length_echoPacket]
    exact not_lt.1 fun hlt => h pk hpk ⟨hmode, m, hm, hlt⟩
  · rintro h pk hpk ⟨hmode, m, hm, hlt⟩
    have hle := length_of_frames (h hmode pk hpk m hm 0)
    rw [length_echoPacket] at hle
    exact absurd hlt (not_lt.2 hle)

/-- How many PUBLISHes have a cut property length. -/
def cuts (cfg : Config) (pkts : List View) : ℕ := pkts.countP fun pk => decide (CutPublish cfg pk)

theorem Receiver.recvTotal_fail (r : Receiver) (what : String) (errno : Option String) :
    (r.fail what errno).recvTotal = r.recvTotal := by
  unfold Receiver.fail
  split <;> rfl

theorem Receiver.recvTotal_publish (r : Receiver) (cfg : Config) (now : UInt64) (i : Inbound) :
    (r.publish cfg now i).recvTotal = r.recvTotal + 1 := by
  unfold Receiver.publish
  cases cfg.mode <;> rfl

/-- The count goes up for a PUBLISH that is well formed, and for one that is cut. -/
theorem recvTotal_answer (cfg : Config) (r : Receiver) (now : UInt64) (pk : Packet) :
    (r.answer cfg now pk).recvTotal =
      r.recvTotal + publishes cfg [pk.view] + cuts cfg [pk.view] := by
  by_cases h30 : pk.hdr &&& 0xf0 = 0x30
  · have hne : ∀ type : UInt8, type ≠ 0x30 → ¬ pk.hdr &&& 0xf0 = type :=
      fun type ht h => ht (h.symm.trans h30)
    have hview := parsePublish_view cfg.v5 pk.hdr pk.len_le
    have hwf : wellFormed cfg pk.view = readPublish cfg.v5 (qosOf pk.hdr) pk.body :=
      if_pos (show IsPublishType pk.view from h30)
    have hcutpub : CutPublish cfg pk.view ↔ Cut cfg.v5 (qosOf pk.hdr) pk.body :=
      and_iff_right h30
    have hrun : (r.answer cfg now pk).recvTotal =
        if (acceptPublish cfg.v5 (qosOf pk.hdr) pk.body).isSome then r.recvTotal + 1
        else r.recvTotal := by
      rw [Receiver.answer, if_neg (not_or.2 ⟨hne _ (by decide), hne _ (by decide)⟩),
        if_neg (hne _ (by decide)), if_neg (hne _ (by decide)), if_neg (not_not.2 h30),
        show pk.body = pk.mem.take pk.len from rfl, ← hview]
      cases parsePublish cfg.v5 pk.hdr pk.mem pk.len with
      | none => exact r.recvTotal_fail _ _
      | some i => exact r.recvTotal_publish cfg now i
    rw [hrun]
    by_cases hcut : Cut cfg.v5 (qosOf pk.hdr) pk.body
    · obtain ⟨hread, hacc⟩ := acceptPublish_of_cut hcut
      rw [if_pos hacc]
      simp [publishes, cuts, hwf, hread, hcutpub, hcut]
    · rw [acceptPublish_eq hcut]
      cases hread : readPublish cfg.v5 (qosOf pk.hdr) pk.body <;>
        simp [publishes, cuts, hwf, hread, hcutpub, hcut]
  · have hpub : ¬ IsPublishType pk.view := h30
    have hwf : wellFormed cfg pk.view = none := if_neg hpub
    have hcutpub : ¬ CutPublish cfg pk.view := fun h => hpub h.1
    have hzero : publishes cfg [pk.view] = 0 ∧ cuts cfg [pk.view] = 0 := by
      simp [publishes, cuts, hwf, hcutpub]
    rw [hzero.1, hzero.2, Receiver.answer]
    split
    · rfl
    · split
      · split <;> rfl
      · split <;> rfl

theorem cuts_append (cfg : Config) (xs ys : List View) :
    cuts cfg (xs ++ ys) = cuts cfg xs + cuts cfg ys := List.countP_append

/-- What a flush leaves of the invariant. -/
theorem Answers.flush {cfg : Config} {done : List View} {r : Receiver} (h : Answers cfg done r)
    {out : Wbuf} (hout : out.contents = []) :
    Answers cfg done { r with out := out, written := r.written ++ r.out.contents } :=
  { h with bytes := by rw [hout, List.append_nil]; exact h.bytes }

/-- Without a cut PUBLISH every packet is answered. -/
theorem runReceiver_answered {cfg : Config} {cap : ℕ} {hcap : 0 < cap} {pkts : List View}
    (hlen : ∀ pk ∈ pkts, pk.2.length ≤ maxRemaining) {rounds : List Round}
    (hcalm : Calm cfg (Rbuf.init cap hcap) rounds)
    (hs : (Rbuf.init cap hcap).unread ++ rounds.flatMap Round.bytes = pkts.flatMap packetBytes)
    (hcut : ∀ pk ∈ pkts, ¬ CutPublish cfg pk) :
    Answered cfg pkts (runReceiver cfg rounds (Rbuf.init cap hcap) Receiver.init).2 := by
  have hmore : parse (Rbuf.init cap hcap).unread = .more := by rw [Rbuf.unread_init, parse_nil]
  obtain ⟨hans, hout⟩ := runReceiver_rule (P := Answers cfg) hlen
    (fun done r now pk hpk h => h.answer (by
        have hbody : pk.body.length = pk.len := by
          rw [Packet.body, List.length_take, min_eq_left pk.len_le]
        rw [← hbody]
        exact hlen _ hpk)
      (fun htype hc => hcut _ hpk ⟨htype, hc⟩) now)
    (fun done r out hout h => h.flush hout) hmore hcalm (fun _ h => h) hs rfl (answers_init cfg)
  rw [List.nil_append] at hans
  have hbytes := hans.bytes
  rw [hout, List.append_nil] at hbytes
  exact ⟨hbytes, hans.recvTotal, hans.echoedTotal, hans.echoAcks, hans.sizeMismatch, hans.error⟩

/-- A cut PUBLISH is counted. -/
theorem not_cut_of_recvTotal {cfg : Config} {cap : ℕ} {hcap : 0 < cap} {pkts : List View}
    (hlen : ∀ pk ∈ pkts, pk.2.length ≤ maxRemaining) {rounds : List Round}
    (hcalm : Calm cfg (Rbuf.init cap hcap) rounds)
    (hs : (Rbuf.init cap hcap).unread ++ rounds.flatMap Round.bytes = pkts.flatMap packetBytes)
    (htotal : (runReceiver cfg rounds (Rbuf.init cap hcap) Receiver.init).2.recvTotal =
      publishes cfg pkts) : ∀ pk ∈ pkts, ¬ CutPublish cfg pk := by
  have hmore : parse (Rbuf.init cap hcap).unread = .more := by rw [Rbuf.unread_init, parse_nil]
  have hcount : (runReceiver cfg rounds (Rbuf.init cap hcap) Receiver.init).2.recvTotal =
      publishes cfg ([] ++ pkts) + cuts cfg ([] ++ pkts) :=
    (runReceiver_rule (P := fun done r => r.recvTotal = publishes cfg done + cuts cfg done) hlen
      (fun done r now pk _ h => by
        rw [recvTotal_answer, h, publishes_append, cuts_append]
        omega)
      (fun _ _ _ _ h => h) hmore hcalm (fun _ h => h) hs rfl rfl).1
  rw [List.nil_append] at hcount
  have hzero : cuts cfg pkts = 0 := by omega
  intro pk hpk hcut
  exact List.countP_eq_zero.1 hzero pk hpk (by simpa using hcut)

/-- **The receiver answers every packet exactly once, whatever the segmentation, unless a
PUBLISH with a cut property length is among them, or one whose echo is too long.**  The former
is malformed, and is counted, acknowledged and echoed like a good one; what goes out for the
latter is no packet.  The echoes among the responses are PUBLISHes on the reply topic with the
payload they echo, and their ids run through 1..65535. -/
theorem runReceiver_answered_iff (cfg : Config) (cap : ℕ) (hcap : 0 < cap) (pkts : List View)
    (hlen : ∀ pk ∈ pkts, pk.2.length ≤ maxRemaining) (rounds : List Round)
    (hcalm : Calm cfg (Rbuf.init cap hcap) rounds)
    (hstream : rounds.flatMap Round.bytes = pkts.flatMap packetBytes) :
    (Relayed cfg pkts (runReceiver cfg rounds (Rbuf.init cap hcap) Receiver.init).2 ↔
        ∀ pk ∈ pkts, ¬ CutPublish cfg pk ∧ ¬ LongEcho cfg pk) ∧
      ∀ j payload, (qosOf (echoPacket cfg j payload).1 = cfg.replyQos ∧
          IsPublish cfg.v5 cfg.replyQos (echoPacket cfg j payload).2
            (if cfg.replyQos = 0 then 0 else echoId j) payload) ∧
        echoId 0 = 1 ∧ echoId (j + 1) = (if echoId j = 65535 then 1 else echoId j + 1) ∧
          echoId j ≠ 0 := by
  have hs : (Rbuf.init cap hcap).unread ++ rounds.flatMap Round.bytes = pkts.flatMap packetBytes := by
    rw [Rbuf.unread_init, List.nil_append, hstream]
  refine ⟨⟨fun h pk hpk => ⟨?_, ?_⟩, fun h => ⟨?_, ?_⟩⟩, fun j payload =>
    ⟨isPublish_echo cfg j payload, echoId_cyclic j⟩⟩
  · exact not_cut_of_recvTotal hlen hcalm hs h.recvTotal pk hpk
  · exact frames_echo_iff.2 h.echoed pk hpk
  · exact runReceiver_answered hlen hcalm hs fun pk hpk => (h pk hpk).1
  · exact frames_echo_iff.1 fun pk hpk => (h pk hpk).2

/-- A sink of an MQTT 5 run. -/
def sinkV5 : Config where
  mode := .sink
  v5 := true
  replyTopic := []
  replyQos := 0
  sizes := []
  tMeasure := 0
  tEnd := 10
  tStop := 20
  replyQos_le := by decide
  replyTopic_le := by decide

/-- A PUBLISH whose body ends behind the topic name, where the property length is due. -/
def truncatedPublish : View := (0x30, [0, 1, 116])

/-- One `recv()` at time 5. -/
def roundOf (chunk : List UInt8) : Round := ⟨5, .data chunk, 5, none, none⟩

/-- **The truncated PUBLISH is counted.**  It is malformed, so that no count and an error
are due. -/
theorem runReceiver_counts_truncated :
    Calm sinkV5 (Rbuf.init 16 (by decide)) [roundOf [0x30, 3, 0, 1, 116]] ∧
      [roundOf [0x30, 3, 0, 1, 116]].flatMap Round.bytes = [truncatedPublish].flatMap packetBytes ∧
      Malformed sinkV5 truncatedPublish ∧
      ¬ Relayed sinkV5 [truncatedPublish] (runReceiver sinkV5 [roundOf [0x30, 3, 0, 1, 116]]
        (Rbuf.init 16 (by decide)) Receiver.init).2 :=
  ⟨⟨by decide, rfl, by decide, by decide, trivial⟩, by decide, by decide,
    fun h => absurd h.recvTotal (by decide)⟩

/-- A QoS 1 PUBLISH in two pieces, and a PUBREL. -/
theorem runReceiver_answered_iff_example :
    Relayed sinkV5 [(0x32, [0, 1, 116, 0, 7, 0, 42]), (0x62, [0, 9])]
      (runReceiver sinkV5 [roundOf [0x32, 7, 0, 1, 116], roundOf [0, 7, 0, 42, 0x62, 2, 0, 9]]
        (Rbuf.init 16 (by decide)) Receiver.init).2 :=
  (runReceiver_answered_iff sinkV5 16 (by decide) _ (by decide)
    [roundOf [0x32, 7, 0, 1, 116], roundOf [0, 7, 0, 42, 0x62, 2, 0, 9]]
    ⟨by decide, rfl, by decide, by decide, by decide, rfl, by decide, by decide, trivial⟩
    (by decide)).1.2 (by decide)

end Peer
