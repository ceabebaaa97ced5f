import MqttBench.Peer.Rbuf
import MqttBench.Peer.SourceLoop
import MqttBench.Bench.RunOnce

/-!
# The `$SYS` probe

`_varint`, `SysProbe._loop`, `SysProbe._on_publish` and the record of `SysProbe.snapshot` of
`bench/sysprobe.py`.  The loop takes packets off its buffer as the C peer's `next_packet`
does, with slices and a sentinel where the peer has offsets and a limit of four bytes.

* `takePacket_codes` — behind a complete length, a packet is taken when its body is there.
* `probeAnswer_incremental`, `probeAnswer_frames` — so the buffer is parsed incrementally.
* `Counts` — what the probe holds after a list of packets; `Counts.publish` is one more.
* `probe_counts` — **the probe counts exactly, and finds the packets that the peer finds.**
* `delta_sent` — `delta` subtracts exactly the probe's own share.
-/

namespace Bench

open Base128 Framing
open Peer (utf8 put16 putStr Rbuf Fits packetBytes maxRemaining)

/-! ## Integers -/

/-- White space in a byte string. -/
def isPySpace (b : UInt8) : Bool := b == 0x20 || (0x09 ≤ b && b ≤ 0x0d)

/-- A decimal digit. -/
def isPyDigit (b : UInt8) : Bool := 0x30 ≤ b && b ≤ 0x39

/-- The default limit on the digits of an integer. -/
def maxStrDigits : ℕ := 4300

/-- `int(payload)`, or `none` for a `ValueError`: white space around a sign and digits, with
single underscores between digits. -/
def pyInt (payload : List UInt8) : Option ℤ :=
  let s := payload.dropWhile isPySpace
  let (sign, s) : ℤ × List UInt8 := match s with
    | 0x2b :: s => (1, s)
    | 0x2d :: s => (-1, s)
    | s => (1, s)
  let text := s.takeWhile fun b => isPyDigit b || b == 0x5f
  let digits := text.filter isPyDigit
  if (text.splitOn 0x5f).all (fun group => !group.isEmpty) && digits.length ≤ maxStrDigits &&
      (s.drop text.length).all isPySpace then
    some (sign * digits.foldl (fun v b => v * 10 + ((b.toNat : ℤ) - 0x30)) 0)
  else none

example : pyInt (utf8 " -1_5\n") = some (-15) := by decide

/-! ## The program -/

/-- `TOPICS`. -/
def sysTopics : List (String × String) :=
  [("$SYS/broker/publish/messages/received", "received"),
    ("$SYS/broker/publish/messages/sent", "sent"),
    ("$SYS/broker/publish/messages/dropped", "dropped"),
    ("$SYS/broker/bytes/received", "bytes_received")]

/-- `TOPICS.get(topic)`. -/
def sysKey (topic : String) : Option String := sysTopics.lookup topic

/-- The fields of `SysProbe` that the loop changes.  `calls` is a record of the calls of
`_on_publish`, for the statements only. -/
structure SysProbe where
  values : String → Option ℤ
  updatedAt : String → Option ℚ
  probeMsgs : ℕ
  error : Option String
  calls : List (List UInt8)

/-- `SysProbe(…)`. -/
def SysProbe.init : SysProbe := ⟨fun _ => none, fun _ => none, 0, none, []⟩

/-- `struct.unpack("!H", body[:2])`, or `none` for a `struct.error`. -/
def unpackH : List UInt8 → Option ℕ
  | [hi, lo] => some (Peer.read16 hi lo).toNat
  | _ => none

/-- `bytes.decode()`, or `none` for a `UnicodeDecodeError`. -/
def decodeUtf8 (bytes : List UInt8) : Option String := String.fromUTF8? ⟨bytes.toArray⟩

/-- `_on_publish(body)` at a reading of the clock, or `none` when it raises. -/
def onPublish (now : ℚ) (probe : SysProbe) (body : List UInt8) : Option SysProbe := do
  let tlen ← unpackH (body.take 2)
  let topic ← decodeUtf8 ((body.drop 2).take tlen)
  let payload := body.drop (2 + tlen)
  let probe := { probe with probeMsgs := probe.probeMsgs + 1 }
  match sysKey topic with
  | none => some probe
  | some key =>
    let values := match pyInt payload with
      | some value => Function.update probe.values key (some value)
      | none => probe.values
    some { probe with values, updatedAt := Function.update probe.updatedAt key (some now) }

/-- The length loop; `bytes` are those from `buf[i]` on. -/
def scanRl : List UInt8 → ℤ → ℤ → ℕ → ℤ × ℕ
  | [], _, _, i => (-1, i)
  | b :: bytes, rl, mul, i =>
    if b &&& 0x80 = 0 then (rl + (b &&& 0x7f).toNat * mul, i + 1)
    else scanRl bytes (rl + (b &&& 0x7f).toNat * mul) (mul * 128) (i + 1)

/-- One round of the packet loop: a packet and the buffer behind it, or `none` at a
`break`. -/
def takePacket (buf : List UInt8) : Option ((UInt8 × List UInt8) × List UInt8) :=
  if buf.length < 2 then none
  else
    let (rl, i) := scanRl buf.tail 0 1 1
    if rl < 0 ∨ (buf.length : ℤ) < i + rl then none
    else some ((buf.headD 0, (buf.drop i).take rl.toNat), buf.drop (i + rl.toNat))

/-- `takePacket` as an incremental parser. -/
def probeAnswer (buf : List UInt8) : Answer UInt8 (UInt8 × List UInt8) :=
  match takePacket buf with
  | none => .more
  | some (pk, rest) => .item pk rest

/-- `_varint(n)`. -/
def varint (n : ℕ) : List UInt8 :=
  if n / 128 = 0 then [UInt8.ofNat (n % 128)]
  else UInt8.ofNat (n % 128 ||| 0x80) :: varint (n / 128)

/-- The counters in what `snapshot` returns. -/
def SysProbe.snapshot (probe : SysProbe) : SysSnapshot where
  received := probe.values "received"
  sent := probe.values "sent"
  dropped := some ((probe.values "dropped").getD 0)
  bytesReceived := probe.values "bytes_received"
  probeMsgs := probe.probeMsgs

/-! ## The deframer -/

/-- The probe and the peer write a length alike. -/
theorem varint_eq_putVarint {n : ℕ} (h : n < 2 ^ 32) : varint n = Peer.putVarint n := by
  have hloop : ∀ fuel n, n < 128 ^ (fuel + 1) → varint n = Peer.putVarintLoop (fuel + 1) n := by
    intro fuel
    induction fuel with
    | zero =>
      intro n hn
      rw [varint, Peer.putVarintLoop, if_pos (by omega), if_pos (by omega)]
    | succ fuel ih =>
      intro n hn
      have hrest : n / 128 < 128 ^ (fuel + 1) := by
        rw [pow_succ] at hn
        omega
      rw [varint, Peer.putVarintLoop, ih _ hrest]
  exact hloop 4 n (by omega)

theorem scanRl_codes {bs : List UInt8} {v : ℕ} (h : Codes bs v) (rest : List UInt8)
    (rl mul : ℤ) (i : ℕ) : scanRl (bs ++ rest) rl mul i = (rl + v * mul, i + bs.length) := by
  induction h generalizing rl mul i with
  | @last b hb =>
    rw [List.singleton_append, scanRl, if_pos ((and_0x80_eq_zero b).2 hb), toNat_and_0x7f,
      Nat.mod_eq_of_lt hb, List.length_singleton]
  | @more b bs v hb _ ih =>
    have hcont : ¬ b &&& 0x80 = 0 := by rw [and_0x80_eq_zero]; omega
    rw [List.cons_append, scanRl, if_neg hcont, ih, toNat_and_0x7f, List.length_cons]
    refine Prod.ext ?_ ?_
    · push_cast
      ring
    · simp only
      omega

/-- The sentinel tells a length that is not complete. -/
theorem scanRl_continues {xs : List UInt8} (h : Continues xs) (rl mul : ℤ) (i : ℕ) :
    (scanRl xs rl mul i).1 = -1 := by
  induction xs generalizing rl mul i with
  | nil => rfl
  | cons b xs ih =>
    obtain ⟨hb, hrest⟩ := List.forall_mem_cons.1 h
    have hcont : ¬ b &&& 0x80 = 0 := by rw [and_0x80_eq_zero]; omega
    rw [scanRl, if_neg hcont]
    exact ih hrest _ _ _

/-- Behind a complete length, a packet is taken when its body is there. -/
theorem takePacket_codes (hdr : UInt8) {bs : List UInt8} {v : ℕ} (hv : Codes bs v)
    (tail : List UInt8) :
    takePacket (hdr :: (bs ++ tail)) =
      if tail.length < v then none else some ((hdr, tail.take v), tail.drop v) := by
  have hpos := hv.length_pos
  have hdrop : ∀ n, (hdr :: (bs ++ tail)).drop (1 + bs.length + n) = tail.drop n := by
    intro n
    rw [show 1 + bs.length + n = (bs.length + n) + 1 by omega, List.drop_succ_cons,
      List.drop_append, List.drop_eq_nil_of_le (by omega), List.nil_append,
      Nat.add_sub_cancel_left]
  have hscan : scanRl (bs ++ tail) 0 1 1 = ((v : ℤ), 1 + bs.length) := by
    rw [scanRl_codes hv, zero_add, mul_one]
  unfold takePacket
  rw [if_neg (by rw [List.length_cons, List.length_append]; omega), List.tail_cons, hscan]
  simp only [List.length_cons, List.length_append, Int.toNat_natCast, List.headD_cons, hdrop]
  rw [← Nat.add_zero (1 + bs.length), hdrop, List.drop_zero]
  by_cases h : tail.length < v
  · rw [if_pos h, if_pos (by omega)]
  · rw [if_neg h, if_neg (by omega)]

/-- A buffer begins with a complete length or ends inside it. -/
theorem takePacket_cases (hdr : UInt8) (rest : List UInt8) :
    (∃ bs tail v, rest = bs ++ tail ∧ Codes bs v ∧
        takePacket (hdr :: rest) =
          if tail.length < v then none else some ((hdr, tail.take v), tail.drop v)) ∨
      takePacket (hdr :: rest) = none := by
  rcases codes_trichotomy (rest.length + 1) rest with ⟨bs, tail, v, rfl, hv, _⟩ | ⟨_, hc⟩ | ⟨hl, _⟩
  · exact .inl ⟨bs, tail, v, rfl, hv, takePacket_codes hdr hv tail⟩
  · right
    have hneg := scanRl_continues hc 0 1 1
    unfold takePacket
    split
    · rfl
    · simp only [List.tail_cons, hneg]
      rw [if_pos (.inl (by omega))]
  · omega

theorem probeAnswer_eq_item {buf rest : List UInt8} {pk : UInt8 × List UInt8} :
    probeAnswer buf = .item pk rest ↔ takePacket buf = some (pk, rest) := by
  unfold probeAnswer
  cases takePacket buf with
  | none => simp
  | some taken =>
    obtain ⟨pk', rest'⟩ := taken
    simp

theorem probeAnswer_eq_more {buf : List UInt8} :
    probeAnswer buf = .more ↔ takePacket buf = none := by
  unfold probeAnswer
  cases takePacket buf with
  | none => simp
  | some taken => simp

theorem probeAnswer_ne_bad (buf : List UInt8) : probeAnswer buf ≠ .bad := by
  unfold probeAnswer
  cases takePacket buf with
  | none => simp
  | some taken => simp

/-- A packet that is taken is whole. -/
theorem takePacket_eq_some {buf rest : List UInt8} {pk : UInt8 × List UInt8}
    (h : takePacket buf = some (pk, rest)) :
    ∃ hdr bs tail v, buf = hdr :: (bs ++ tail) ∧ Codes bs v ∧ v ≤ tail.length ∧
      pk = (hdr, tail.take v) ∧ rest = tail.drop v := by
  cases buf with
  | nil => cases h
  | cons hdr xs =>
    rcases takePacket_cases hdr xs with ⟨bs, tail, v, rfl, hv, heq⟩ | hnone
    · rw [heq] at h
      split at h
      · cases h
      · next hle =>
        obtain ⟨rfl, rfl⟩ := Prod.mk.inj (Option.some.inj h)
        exact ⟨hdr, bs, tail, v, rfl, hv, not_lt.1 hle, rfl, rfl⟩
    · rw [hnone] at h
      cases h

theorem takePacket_lt {buf rest : List UInt8} {pk : UInt8 × List UInt8}
    (h : takePacket buf = some (pk, rest)) : rest.length < buf.length := by
  obtain ⟨hdr, bs, tail, v, rfl, _, _, _, rfl⟩ := takePacket_eq_some h
  simp only [List.length_drop, List.length_cons, List.length_append]
  omega

theorem probeAnswer_incremental : Incremental probeAnswer where
  item_append := by
    intro buf pk rest h ys
    obtain ⟨hdr, bs, tail, v, rfl, hv, hle, rfl, rfl⟩ :=
      takePacket_eq_some (probeAnswer_eq_item.1 h)
    rw [probeAnswer_eq_item, List.cons_append, List.append_assoc, takePacket_codes hdr hv,
      if_neg (by rw [List.length_append]; omega), List.take_append_of_le_length hle,
      List.drop_append_of_le_length hle]
  item_lt := by
    intro buf pk rest h
    exact takePacket_lt (probeAnswer_eq_item.1 h)
  bad_append := by
    intro buf h
    exact absurd h (probeAnswer_ne_bad buf)

/-- What `put_varint` framed is taken off. -/
theorem probeAnswer_frames {pk : UInt8 × List UInt8} (h : pk.2.length ≤ maxRemaining) :
    Frames probeAnswer packetBytes pk := by
  intro ys
  have hlt : pk.2.length < 2 ^ 32 := lt_of_le_of_lt h (by decide)
  rw [probeAnswer_eq_item, packetBytes, List.cons_append, List.append_assoc,
    takePacket_codes pk.1 (Peer.codes_putVarint hlt),
    if_neg (by rw [List.length_append]; omega), List.take_left, List.drop_left]

/-! ## The loop -/

/-- What `recv(65536)` does. -/
inductive Recv
  /-- It returns bytes; none when the broker closed the connection. -/
  | chunk (bytes : List UInt8)
  /-- `socket.timeout`. -/
  | timeout
  /-- Another `OSError`. -/
  | failed (message : String)

/-- What a round of `_loop` meets. -/
structure ProbeRound where
  /-- `self._closed`, in the loop's condition and when an `OSError` is handled. -/
  closed : Bool
  closedAfter : Bool
  /-- The clock, before and after the PINGREQ. -/
  now : ℚ
  pinged : ℚ
  /-- The message of the `OSError` that sending a PINGREQ raises. -/
  pingError : Option String
  recv : Recv
  /-- The clock at each call of `_on_publish`. -/
  clock : ℕ → ℚ

/-- The round finds the connection open, and `recv` neither fails nor returns nothing. -/
def ProbeRound.Live (r : ProbeRound) : Prop :=
  r.closed = false ∧ r.pingError = none ∧
    match r.recv with
    | .chunk bytes => bytes ≠ []
    | .timeout => True
    | .failed _ => False

/-- The bytes received in a round. -/
def ProbeRound.bytes (r : ProbeRound) : List UInt8 :=
  match r.recv with
  | .chunk bytes => bytes
  | _ => []

/-- The variables of `_loop`.  `taken` is a record of the packets taken off the buffer and
`pings` of the PINGREQs sent. -/
structure ProbeLoop where
  buf : List UInt8
  lastPing : ℚ
  probe : SysProbe
  taken : List (UInt8 × List UInt8)
  pings : ℕ

/-- Their initial values. -/
def ProbeLoop.init (now : ℚ) : ProbeLoop := ⟨[], now, .init, [], 0⟩

/-- `PING_EVERY_S`. -/
def pingEveryS : ℚ := 30

/-- The handler of an `OSError`. -/
def ProbeLoop.fail (l : ProbeLoop) (closedAfter : Bool) (message : String) : ProbeLoop :=
  if closedAfter then l else { l with probe := { l.probe with error := some message } }

/-- The packet loop: the variables, and whether `_on_publish` never raised. -/
def takePackets (clock : ℕ → ℚ) (l : ProbeLoop) : ProbeLoop × Bool :=
  match h : takePacket l.buf with
  | none => (l, true)
  | some (pk, rest) =>
    let l := { l with buf := rest, taken := l.taken ++ [pk] }
    if pk.1 &&& 0xf0 = 0x30 then
      let now := clock l.probe.calls.length
      let probe := { l.probe with calls := l.probe.calls ++ [pk.2] }
      match onPublish now probe pk.2 with
      | none => ({ l with probe }, false)
      | some probe => takePackets clock { l with probe }
    else takePackets clock l
termination_by l.buf.length
decreasing_by all_goals exact takePacket_lt h

/-- A round from `recv` on. -/
def recvRound (r : ProbeRound) (l : ProbeLoop) : ProbeLoop × Bool :=
  match r.recv with
  | .timeout => (l, true)
  | .failed message => (l.fail r.closedAfter message, false)
  | .chunk [] => (l.fail r.closedAfter "$SYS probe connection closed", false)
  | .chunk (b :: bytes) => takePackets r.clock { l with buf := l.buf ++ b :: bytes }

/-- A round of `while not self._closed`: the variables, and whether the loop goes on. -/
def loopRound (r : ProbeRound) (l : ProbeLoop) : ProbeLoop × Bool :=
  if r.closed then (l, false)
  else if pingEveryS ≤ r.now - l.lastPing then
    match r.pingError with
    | some message => (l.fail r.closedAfter message, false)
    | none => recvRound r { l with lastPing := r.pinged, pings := l.pings + 1 }
  else recvRound r l

/-- `_loop`, for as long as the rounds last: the variables, and whether it is still
running. -/
def probeLoop : List ProbeRound → ProbeLoop → ProbeLoop × Bool
  | [], l => (l, true)
  | r :: rounds, l =>
    match loopRound r l with
    | (l, false) => (l, false)
    | (l, true) => probeLoop rounds l

/-! ## Packets and what they count for -/

/-- A packet that the broker sends: a PUBLISH of QoS 0, or a packet of another type. -/
inductive BrokerPacket
  | publish (hdr : UInt8) (qos0 : hdr &&& 0xf6 = 0x30) (topic : String)
      (topic_lt : (utf8 topic).length < 65536) (payload : List UInt8)
  | other (hdr : UInt8) (type : hdr &&& 0xf0 ≠ 0x30) (body : List UInt8)

namespace BrokerPacket

/-- Its header byte and body. -/
def view : BrokerPacket → UInt8 × List UInt8
  | publish hdr _ topic _ payload => (hdr, putStr (utf8 topic) ++ payload)
  | other hdr _ body => (hdr, body)

/-- Its topic and payload. -/
def message? : BrokerPacket → Option (String × List UInt8)
  | publish _ _ topic _ payload => some (topic, payload)
  | other .. => none

end BrokerPacket

/-- The bytes of packets. -/
def streamOf (pkts : List BrokerPacket) : List UInt8 :=
  (pkts.map BrokerPacket.view).flatMap packetBytes

/-- The messages of packets. -/
def messages (pkts : List BrokerPacket) : List (String × List UInt8) :=
  pkts.filterMap BrokerPacket.message?

/-- The integers received on a topic. -/
def integersOn (topic : String) (pkts : List BrokerPacket) : List ℤ :=
  (messages pkts).filterMap fun m => if m.1 = topic then pyInt m.2 else none

/-- What the probe holds when it has received `pkts`: one call for each PUBLISH, with its
body, and of each counter the last integer. -/
structure Counts (pkts : List BrokerPacket) (probe : SysProbe) : Prop where
  msgs : probe.probeMsgs = (messages pkts).length
  calls : probe.calls = (messages pkts).map fun m => putStr (utf8 m.1) ++ m.2
  values : ∀ topic key, sysKey topic = some key →
    probe.values key = (integersOn topic pkts).getLast?
  error : probe.error = none

theorem counts_init : Counts [] .init := ⟨rfl, rfl, fun _ _ _ => rfl, rfl⟩

/-! ## One packet -/

theorem decodeUtf8_utf8 (topic : String) : decodeUtf8 (utf8 topic) = some topic := by
  have hbytes : (⟨(utf8 topic).toArray⟩ : ByteArray) = topic.toUTF8 := by
    unfold utf8
    rw [Array.toArray_toList]
  unfold decodeUtf8 String.fromUTF8?
  rw [hbytes, String.toUTF8_eq_toByteArray, dif_pos topic.isValidUTF8]
  rfl

theorem unpackH_put16 (v : UInt16) : unpackH (put16 v) = some v.toNat := by
  change some (Peer.read16 (v >>> 8).toUInt8 v.toUInt8).toNat = some v.toNat
  rw [Peer.read16_put16]

theorem mem_of_sysKey {topic key : String} (h : sysKey topic = some key) :
    (topic, key) ∈ sysTopics := by
  obtain ⟨before, after, hsplit, _⟩ := List.lookup_eq_some_iff.1 h
  rw [hsplit]
  exact List.mem_append_right _ (List.mem_cons_self ..)

/-- No two topics share a key. -/
theorem sysKey_injective {topic topic' key : String} (h : sysKey topic = some key)
    (h' : sysKey topic' = some key) : topic = topic' := by
  have hkeys : ∀ e ∈ sysTopics, ∀ e' ∈ sysTopics, e.2 = e'.2 → e.1 = e'.1 := by decide
  exact hkeys _ (mem_of_sysKey h) _ (mem_of_sysKey h') rfl

/-- What a message on `topic` changes. -/
def SysProbe.take (now : ℚ) (probe : SysProbe) (topic : String) (payload : List UInt8) :
    SysProbe :=
  match sysKey topic with
  | none => { probe with probeMsgs := probe.probeMsgs + 1 }
  | some key =>
    { probe with
      probeMsgs := probe.probeMsgs + 1
      values := match pyInt payload with
        | some value => Function.update probe.values key (some value)
        | none => probe.values
      updatedAt := Function.update probe.updatedAt key (some now) }

namespace SysProbe

variable (now : ℚ) (probe : SysProbe) (topic : String) (payload : List UInt8)

@[simp] theorem probeMsgs_take : (probe.take now topic payload).probeMsgs = probe.probeMsgs + 1 := by
  unfold take
  cases sysKey topic with
  | none => rfl
  | some key => rfl

@[simp] theorem calls_take : (probe.take now topic payload).calls = probe.calls := by
  unfold take
  cases sysKey topic with
  | none => rfl
  | some key => rfl

@[simp] theorem error_take : (probe.take now topic payload).error = probe.error := by
  unfold take
  cases sysKey topic with
  | none => rfl
  | some key => rfl

/-- A message sets the counter of its topic, if it holds an integer, and no other. -/
theorem values_take {topic' key : String} (hkey : sysKey topic' = some key) :
    (probe.take now topic payload).values key =
      (if topic = topic' then pyInt payload else none).or (probe.values key) := by
  unfold take
  by_cases htopic : topic = topic'
  · subst htopic
    rw [hkey, if_pos rfl]
    cases pyInt payload with
    | none => rfl
    | some value => exact Function.update_self key (some value) probe.values
  · rw [if_neg htopic, Option.none_or]
    cases hkey' : sysKey topic with
    | none => rfl
    | some key' =>
      have hne : key ≠ key' := by
        rintro rfl
        exact htopic (sysKey_injective hkey' hkey)
      cases pyInt payload with
      | none => rfl
      | some value => exact Function.update_of_ne hne (some value) probe.values

end SysProbe

/-- **A well-formed PUBLISH is understood.** -/
theorem onPublish_message (now : ℚ) (probe : SysProbe) {topic : String}
    (hlt : (utf8 topic).length < 65536) (payload : List UInt8) :
    onPublish now probe (putStr (utf8 topic) ++ payload) = some (probe.take now topic payload) := by
  have hlen : (UInt16.ofNat (utf8 topic).length).toNat = (utf8 topic).length :=
    UInt16.toNat_ofNat_of_lt' hlt
  have hbody : putStr (utf8 topic) ++ payload =
      put16 (UInt16.ofNat (utf8 topic).length) ++ (utf8 topic ++ payload) := by
    unfold putStr
    rw [List.append_assoc]
  have hhead : (putStr (utf8 topic) ++ payload).take 2 =
      put16 (UInt16.ofNat (utf8 topic).length) := by
    rw [hbody]
    rfl
  have htopic : ((putStr (utf8 topic) ++ payload).drop 2).take (utf8 topic).length = utf8 topic := by
    rw [hbody]
    exact List.take_left
  have hpayload : (putStr (utf8 topic) ++ payload).drop (2 + (utf8 topic).length) = payload := by
    rw [hbody, ← List.drop_drop]
    exact List.drop_left
  unfold onPublish SysProbe.take
  rw [hhead, unpackH_put16, hlen]
  simp only [Option.bind_eq_bind, Option.bind_some, htopic, decodeUtf8_utf8, hpayload]
  cases sysKey topic with
  | none => rfl
  | some key => rfl

theorem messages_append (pkts more : List BrokerPacket) :
    messages (pkts ++ more) = messages pkts ++ messages more := by
  unfold messages
  exact List.filterMap_append

/-- A packet of another type counts for nothing. -/
theorem Counts.other {pkts : List BrokerPacket} {probe : SysProbe} (h : Counts pkts probe)
    {hdr : UInt8} (type : hdr &&& 0xf0 ≠ 0x30) (body : List UInt8) :
    Counts (pkts ++ [.other hdr type body]) probe := by
  have hnone : messages (pkts ++ [.other hdr type body]) = messages pkts := by
    rw [messages_append]
    exact List.append_nil _
  refine ⟨?_, ?_, ?_, h.error⟩
  · rw [hnone, h.msgs]
  · rw [hnone, h.calls]
  · intro topic key hkey
    unfold integersOn
    rw [hnone]
    exact h.values topic key hkey

/-- **One PUBLISH** is counted, and its integer becomes the value of its counter. -/
theorem Counts.publish {pkts : List BrokerPacket} {probe : SysProbe} (h : Counts pkts probe)
    {hdr : UInt8} (qos0 : hdr &&& 0xf6 = 0x30) {topic : String}
    (hlt : (utf8 topic).length < 65536) (payload : List UInt8) (now : ℚ) :
    Counts (pkts ++ [.publish hdr qos0 topic hlt payload])
      (SysProbe.take now
        { probe with calls := probe.calls ++ [putStr (utf8 topic) ++ payload] } topic payload) := by
  have hmessages : messages (pkts ++ [.publish hdr qos0 topic hlt payload]) =
      messages pkts ++ [(topic, payload)] := messages_append _ _
  refine ⟨?_, ?_, ?_, ?_⟩
  · rw [SysProbe.probeMsgs_take, hmessages, List.length_append, h.msgs]
    rfl
  · rw [SysProbe.calls_take, hmessages, List.map_append, h.calls]
    rfl
  · intro topic' key hkey
    have hlast : ∀ value? : Option ℤ, value?.toList.getLast? = value? := by
      intro value?
      cases value? with
      | none => rfl
      | some value => rfl
    have hintegers : integersOn topic' (pkts ++ [.publish hdr qos0 topic hlt payload]) =
        integersOn topic' pkts ++ (if topic = topic' then pyInt payload else none).toList := by
      unfold integersOn
      rw [hmessages, List.filterMap_append, List.filterMap_cons]
      cases (if topic = topic' then pyInt payload else none : Option ℤ) with
      | none => rfl
      | some value => rfl
    rw [SysProbe.values_take _ _ _ _ hkey, hintegers, List.getLast?_append, hlast]
    exact congrArg _ (h.values topic' key hkey)
  · rw [SysProbe.error_take]
    exact h.error

/-! ## Whole runs -/

/-- The loop has taken exactly `pkts`. -/
structure Deframed (pkts : List BrokerPacket) (l : ProbeLoop) : Prop where
  taken : l.taken = pkts.map BrokerPacket.view
  counts : Counts pkts l.probe

theorem isPublish_of_qos0 {hdr : UInt8} (h : hdr &&& 0xf6 = 0x30) : hdr &&& 0xf0 = 0x30 := by
  revert h
  revert hdr
  decide +kernel

/-- **One packet.** -/
theorem takePackets_cons (clock : ℕ → ℚ) {l : ProbeLoop} {done : List BrokerPacket}
    (h : Deframed done l) {p : BrokerPacket} {rest : List UInt8}
    (htake : takePacket l.buf = some (p.view, rest)) :
    ∃ l' : ProbeLoop, takePackets clock l = takePackets clock l' ∧ l'.buf = rest ∧
      Deframed (done ++ [p]) l' := by
  have htaken : l.taken ++ [p.view] = (done ++ [p]).map BrokerPacket.view := by
    rw [h.taken, List.map_append]
    rfl
  cases p with
  | publish hdr qos0 topic hlt payload =>
    refine ⟨{ l with
      buf := rest
      taken := l.taken ++ [(hdr, putStr (utf8 topic) ++ payload)]
      probe := SysProbe.take (clock l.probe.calls.length)
        { l.probe with calls := l.probe.calls ++ [putStr (utf8 topic) ++ payload] } topic payload },
      ?_, rfl, htaken, h.counts.publish qos0 hlt payload _⟩
    rw [takePackets]
    split
    · next hnone =>
      rw [htake] at hnone
      cases hnone
    · next pk rest' hsome =>
      rw [htake] at hsome
      obtain ⟨rfl, rfl⟩ := Prod.mk.inj (Option.some.inj hsome)
      simp only [BrokerPacket.view, if_pos (isPublish_of_qos0 qos0), onPublish_message _ _ hlt]
  | other hdr type body =>
    refine ⟨{ l with buf := rest, taken := l.taken ++ [(hdr, body)] }, ?_, rfl, htaken,
      h.counts.other type body⟩
    rw [takePackets]
    split
    · next hnone =>
      rw [htake] at hnone
      cases hnone
    · next pk rest' hsome =>
      rw [htake] at hsome
      obtain ⟨rfl, rfl⟩ := Prod.mk.inj (Option.some.inj hsome)
      simp only [BrokerPacket.view]
      exact if_neg type

/-- The packet loop takes the packets that the buffer drains to. -/
theorem takePackets_of_drains (clock : ℕ → ℚ) {l : ProbeLoop} {done : List BrokerPacket}
    (h : Deframed done l) {items : List BrokerPacket} {left : List UInt8}
    (hd : Drains probeAnswer l.buf (items.map BrokerPacket.view) left) :
    ∃ l' : ProbeLoop, takePackets clock l = (l', true) ∧ l'.buf = left ∧
      Deframed (done ++ items) l' := by
  induction items generalizing l done with
  | nil =>
    cases hd with
    | stop hmore =>
      have hnone := probeAnswer_eq_more.1 hmore
      refine ⟨l, ?_, rfl, by rwa [List.append_nil]⟩
      rw [takePackets]
      split
      · rfl
      · next hsome =>
        rw [hnone] at hsome
        cases hsome
  | cons p items ih =>
    cases hd with
    | item hitem hrest =>
      obtain ⟨l₁, hstep, hbuf, hdone⟩ := takePackets_cons clock h (probeAnswer_eq_item.1 hitem)
      rw [← hbuf] at hrest
      obtain ⟨l', hrun, hleft, hall⟩ := ih hdone hrest
      exact ⟨l', hstep.trans hrun, hleft, by rwa [List.append_cons]⟩

/-- A PINGREQ changes nothing that the packets depend on. -/
theorem loopRound_live {r : ProbeRound} (hlive : r.Live) {l : ProbeLoop}
    {done : List BrokerPacket} (h : Deframed done l) :
    ∃ l₁ : ProbeLoop, loopRound r l = recvRound r l₁ ∧ l₁.buf = l.buf ∧ Deframed done l₁ := by
  obtain ⟨hopen, hping, _⟩ := hlive
  unfold loopRound
  rw [hopen, if_neg Bool.false_ne_true, hping]
  split
  · exact ⟨_, rfl, rfl, h.taken, h.counts⟩
  · exact ⟨l, rfl, rfl, h⟩

theorem streamOf_append (pkts more : List BrokerPacket) :
    streamOf (pkts ++ more) = streamOf pkts ++ streamOf more := by
  unfold streamOf
  rw [List.map_append, List.flatMap_append]

/-- **One round**: whatever part of the stream has arrived, the packets taken are the next
ones. -/
theorem loopRound_spec {r : ProbeRound} (hlive : r.Live) {l : ProbeLoop}
    {done rest : List BrokerPacket} (h : Deframed done l) (hmore : probeAnswer l.buf = .more)
    (hlen : ∀ p ∈ rest, p.view.2.length ≤ maxRemaining) {ys : List UInt8}
    (hs : l.buf ++ r.bytes ++ ys = streamOf rest) :
    ∃ (l' : ProbeLoop) (next rest' : List BrokerPacket), loopRound r l = (l', true) ∧
      rest = next ++ rest' ∧ Deframed (done ++ next) l' ∧ probeAnswer l'.buf = .more ∧
      l'.buf ++ ys = streamOf rest' ∧ l.buf ++ r.bytes = streamOf next ++ l'.buf := by
  obtain ⟨l₁, hround, hbuf, hdone⟩ := loopRound_live hlive h
  rw [hround]
  rw [← hbuf] at hmore hs ⊢
  obtain ⟨_, _, hrecv⟩ := hlive
  unfold ProbeRound.bytes at hs ⊢
  unfold recvRound
  cases hr : r.recv with
  | timeout =>
    simp only [hr, List.append_nil] at hs ⊢
    exact ⟨l₁, [], rest, rfl, rfl, by rwa [List.append_nil], hmore, hs, rfl⟩
  | failed message =>
    rw [hr] at hrecv
    exact hrecv.elim
  | chunk bytes =>
    rw [hr] at hrecv
    cases bytes with
    | nil => exact absurd rfl hrecv
    | cons b bytes =>
      simp only [hr] at hs ⊢
      have hframes : ∀ pk ∈ rest.map BrokerPacket.view, Frames probeAnswer packetBytes pk := by
        intro pk hpk
        obtain ⟨p, hp, rfl⟩ := List.mem_map.1 hpk
        exact probeAnswer_frames (hlen p hp)
      obtain ⟨cs, ds, left, hitems, hd, hleft, hread⟩ :=
        Drains.split probeAnswer_incremental rfl hframes hs
      obtain ⟨next, rest', rfl, rfl, rfl⟩ := List.map_eq_append_iff.1 hitems
      have hdone₁ : Deframed done { l₁ with buf := l₁.buf ++ b :: bytes } :=
        ⟨hdone.taken, hdone.counts⟩
      obtain ⟨l', hrun, rfl, hall⟩ := takePackets_of_drains r.clock hdone₁ hd
      exact ⟨l', next, rest', hrun, rfl, hall, hd.next_left, hleft, hread⟩

/-- **Any number of rounds.** -/
theorem probeLoop_spec {rounds : List ProbeRound} (hlive : ∀ r ∈ rounds, r.Live) {l : ProbeLoop}
    {done rest : List BrokerPacket} (h : Deframed done l) (hmore : probeAnswer l.buf = .more)
    (hlen : ∀ p ∈ rest, p.view.2.length ≤ maxRemaining) {ys : List UInt8}
    (hs : l.buf ++ rounds.flatMap ProbeRound.bytes ++ ys = streamOf rest) :
    ∃ (l' : ProbeLoop) (next rest' : List BrokerPacket), probeLoop rounds l = (l', true) ∧
      rest = next ++ rest' ∧ Deframed (done ++ next) l' ∧ probeAnswer l'.buf = .more ∧
      l'.buf ++ ys = streamOf rest' ∧
      l.buf ++ rounds.flatMap ProbeRound.bytes = streamOf next ++ l'.buf := by
  induction rounds generalizing l done rest with
  | nil =>
    refine ⟨l, [], rest, rfl, rfl, by rwa [List.append_nil], hmore, ?_, ?_⟩
    · rwa [List.flatMap_nil, List.append_nil] at hs
    · rw [List.flatMap_nil, List.append_nil]
      rfl
  | cons r rounds ih =>
    have hcut : l.buf ++ r.bytes ++ (rounds.flatMap ProbeRound.bytes ++ ys) = streamOf rest := by
      rw [← hs, List.flatMap_cons]
      simp only [List.append_assoc]
    obtain ⟨l₁, next₁, rest₁, hround, rfl, hdone₁, hmore₁, hleft₁, hread₁⟩ :=
      loopRound_spec (hlive r (List.mem_cons_self ..)) h hmore hlen hcut
    obtain ⟨l', next, rest', hrun, rfl, hdone', hmore', hleft', hread'⟩ :=
      ih (fun r' hr' => hlive r' (List.mem_cons_of_mem _ hr')) hdone₁ hmore₁
        (fun p hp => hlen p (List.mem_append_right _ hp))
        (by rw [List.append_assoc]; exact hleft₁)
    refine ⟨l', next₁ ++ next, rest', ?_, ?_, ?_, hmore', hleft', ?_⟩
    · rw [probeLoop, hround]
      exact hrun
    · rw [List.append_assoc]
    · rwa [← List.append_assoc]
    · rw [List.flatMap_cons, ← List.append_assoc, hread₁, List.append_assoc, hread',
        streamOf_append, List.append_assoc]

theorem deframed_init (start : ℚ) : Deframed [] (.init start) := ⟨rfl, counts_init⟩

/-! ## The main result -/

/-- **The probe counts exactly and finds the packets that the peer finds.**  Let the bytes
received in the rounds, and some still to come, be a stream of packets.  Then the loop has
taken the packets that arrived, in order, and called `_on_publish` once for each PUBLISH; the
peer, fed the same bytes in chunks of its own, hands out the same packets and holds the same
bytes. -/
theorem probe_counts (pkts : List BrokerPacket) (hlen : ∀ p ∈ pkts, p.view.2.length < 2 ^ 28)
    (rounds : List ProbeRound) (hlive : ∀ r ∈ rounds, r.Live) (ys : List UInt8)
    (hcut : rounds.flatMap ProbeRound.bytes ++ ys = streamOf pkts) (start : ℚ) :
    ∃ (l : ProbeLoop) (received rest : List BrokerPacket),
      probeLoop rounds (.init start) = (l, true) ∧ pkts = received ++ rest ∧
      (ys = [] → received = pkts) ∧ l.taken = received.map BrokerPacket.view ∧
      Counts received l.probe ∧ l.buf ++ ys = streamOf rest ∧
      ∀ (cap : ℕ) (hcap : 0 < cap) (chunks : List (List UInt8)),
        chunks.flatten = rounds.flatMap ProbeRound.bytes → Fits (Rbuf.init cap hcap) chunks →
        ∃ b, Peer.receive Peer.collect (Rbuf.init cap hcap) [] chunks = (b, l.taken, 0) ∧
          b.unread = l.buf := by
  have hmax : ∀ p ∈ pkts, p.view.2.length ≤ maxRemaining := by
    intro p hp
    exact Nat.le_of_lt_succ (hlen p hp)
  obtain ⟨l, received, rest, hrun, rfl, hdone, hmore, hleft, hread⟩ :=
    probeLoop_spec hlive (deframed_init start) rfl hmax hcut
  rw [List.nil_append] at hdone
  change rounds.flatMap ProbeRound.bytes = streamOf received ++ l.buf at hread
  have hviews : ∀ pk ∈ (received ++ rest).map BrokerPacket.view, pk.2.length ≤ maxRemaining := by
    intro pk hpk
    obtain ⟨p, hp, rfl⟩ := List.mem_map.1 hpk
    exact hmax p hp
  refine ⟨l, received, rest, hrun, rfl, ?_, hdone.taken, hdone.counts, hleft, ?_⟩
  · rintro rfl
    rw [List.append_nil] at hleft
    cases rest with
    | nil => exact (List.append_nil _).symm
    | cons p rest =>
      have hitem := probeAnswer_frames (hmax p (List.mem_append_right _ (List.mem_cons_self ..)))
        (streamOf rest)
      change probeAnswer (streamOf (p :: rest)) = _ at hitem
      rw [← hleft, hmore] at hitem
      cases hitem
  · intro cap hcap chunks hchunks hfit
    have hstream : (Rbuf.init cap hcap).unread ++ chunks.flatten ++ ys =
        ((received ++ rest).map BrokerPacket.view).flatMap packetBytes := by
      rw [Rbuf.unread_init, List.nil_append, hchunks]
      exact hcut
    obtain ⟨b, pks, rest', hrec, hitems, _, hpeer, hmore'⟩ :=
      Peer.receive_spec Peer.collect (by rw [Rbuf.unread_init, Peer.parse_nil]) hfit hviews
        hstream []
    rw [Rbuf.unread_init, List.nil_append, hchunks, hread] at hpeer
    obtain ⟨hsame, hsame'⟩ := agree (fun pk hpk => probeAnswer_frames (hviews pk hpk))
      (fun pk hpk => Peer.parse_frames (hviews pk hpk)) List.map_append hitems hpeer hmore hmore'
    refine ⟨b, ?_, hsame'.symm⟩
    rw [hrec, Peer.foldl_collect, List.nil_append, hdone.taken, hsame]

theorem subtract_eq_ok {after before : Option ℤ} {d : ℤ} (h : subtract after before = .ok d) :
    ∃ a b, after = some a ∧ before = some b ∧ a - b = d := by
  unfold subtract at h
  split at h
  · next a b => exact ⟨a, b, rfl, rfl, Except.ok.inj h⟩
  · cases h

/-- **The share of the probe is subtracted exactly**: between two snapshots of one run, it is
the number of PUBLISHes received in between. -/
theorem delta_sent {received more : List BrokerPacket} {probe probe' : SysProbe}
    (h : Counts received probe) (h' : Counts (received ++ more) probe') {sys : Checks.Sys}
    (hd : delta probe.snapshot probe'.snapshot = .ok sys) :
    ∃ sent sent', probe.values "sent" = some sent ∧ probe'.values "sent" = some sent' ∧
      sys.sent = sent' - sent - (messages more).length := by
  have hshare : (probe'.probeMsgs : ℤ) - probe.probeMsgs = (messages more).length := by
    rw [h.msgs, h'.msgs, messages_append, List.length_append]
    push_cast
    ring
  unfold delta at hd
  cases hsent : subtract probe'.snapshot.sent probe.snapshot.sent with
  | error message =>
    rw [hsent] at hd
    cases hd
  | ok sent =>
    cases hreceived : subtract probe'.snapshot.received probe.snapshot.received with
    | error message =>
      rw [hsent, hreceived] at hd
      cases hd
    | ok received =>
      rw [hsent, hreceived] at hd
      cases hd
      obtain ⟨after, before, hafter, hbefore, rfl⟩ := subtract_eq_ok hsent
      exact ⟨before, after, hbefore, hafter, congrArg (after - before - ·) hshare⟩

/-- Two reports of a counter with a PINGRESP between them. -/
def reports : List BrokerPacket :=
  [.publish 0x30 rfl "$SYS/broker/publish/messages/sent" (by decide) [0x31, 0x32],
    .other 0xd0 (by decide) [],
    .publish 0x31 rfl "$SYS/broker/publish/messages/sent" (by decide) [0x31, 0x35]]

/-- A cut behind the first header byte, a time-out and a PINGREQ. -/
def reportRounds : List ProbeRound :=
  [⟨false, false, 0, 0, none, .chunk ((streamOf reports).take 1), fun _ => 0⟩,
    ⟨false, false, 30, 30, none, .timeout, fun _ => 30⟩,
    ⟨false, false, 40, 40, none, .chunk ((streamOf reports).drop 1), fun _ => 40⟩]

theorem probe_counts_reports : ∃ l, probeLoop reportRounds (.init 0) = (l, true) ∧
    l.probe.probeMsgs = 2 ∧ l.probe.values "sent" = some 15 := by
  have hlive : ∀ r ∈ reportRounds, r.Live := by
    unfold reportRounds
    simp only [List.forall_mem_cons]
    refine ⟨⟨rfl, rfl, ?_⟩, ⟨rfl, rfl, trivial⟩, ⟨rfl, rfl, ?_⟩, fun r hr => nomatch hr⟩
    · exact (by decide : (streamOf reports).take 1 ≠ [])
    · exact (by decide : (streamOf reports).drop 1 ≠ [])
  have hcut : reportRounds.flatMap ProbeRound.bytes ++ [] = streamOf reports :=
    (List.append_nil _).trans (by decide)
  obtain ⟨l, received, rest, hrun, _, hall, _, hcounts, _⟩ :=
    probe_counts reports (by decide) reportRounds hlive [] hcut 0
  obtain rfl : received = reports := hall rfl
  exact ⟨l, hrun, hcounts.msgs, hcounts.values _ _ (by decide : sysKey
    "$SYS/broker/publish/messages/sent" = some "sent")⟩

end Bench
