import MqttBench.Peer.Receiver

/-!
# The peer's connection, from the first byte to the last

`wait_packet`, `mqtt_connect`, `mqtt_subscribe` and `main` of `mqtt_peer.c` for a sink or an
echo.  The two waits of the handshake and `run_receiver` read through one buffer, so a packet
that arrives together with the SUBACK is in that buffer when the read loop starts.

* `seekLoop_spec`, `waitPacket_spec` — a wait skips packets up to the first of its type, and
  takes not a byte of what follows.
* `runReceiver_resume` — the read loop, started on a buffer that holds packets already.
* `runPeer_session` — **what a whole connection handles and writes**: the packets behind the
  SUBACK are answered once each, and everything that goes out is framed.
-/

namespace Peer

open Framing

/-! ## Waiting for a packet -/

/-- The inner loop of `wait_packet`: packets of another type are dropped. -/
def seekLoop (want : UInt8) : ℕ → Rbuf → Rbuf × Got
  | 0, b => (b, .more)
  | fuel + 1, b =>
    match nextPacket b with
    | (b', .packet pk) =>
      if pk.hdr &&& 0xf0 = want then (b', .packet pk) else seekLoop want fuel b'
    | (b', .more) => (b', .more)
    | (b', .malformed) => (b', .malformed)

/-- The same, with fuel enough: every packet takes a byte. -/
def seek (want : UInt8) (b : Rbuf) : Rbuf × Got := seekLoop want (b.unread.length + 1) b

/-- How `wait_packet` ends. -/
inductive Waited
  /-- 0, with the packet. -/
  | found (pk : Packet)
  /-- -1. -/
  | failed
  /-- The rounds ended before it did. -/
  | waiting

/-- `wait_packet(b, want, &body, &len)`: the buffer and the rounds that are left. -/
def waitPacket (want : UInt8) (deadline : UInt64) : List Round → Rbuf → Waited × Rbuf × List Round
  | [], b =>
    match seek want b with
    | (b, .packet pk) => (.found pk, b, [])
    | (b, .malformed) => (.failed, b, [])
    | (b, .more) => (.waiting, b, [])
  | round :: rounds, b =>
    match seek want b with
    | (b, .packet pk) => (.found pk, b, round :: rounds)
    | (b, .malformed) => (.failed, b, round :: rounds)
    | (b, .more) =>
      if deadline < round.now then (.failed, b, rounds)
      else
        let (b, rc) := rbufFill b round.ready
        if rc < 0 then (.failed, b, rounds) else waitPacket want deadline rounds b

/-! ## Connecting and subscribing -/

/-- What the peer connects with.  The harness names the client after the run and the topic
filter is cut to `filter[512]`, so both fit the packets' buffers. -/
structure Login where
  clientId : List UInt8
  filter : List UInt8
  qos : ℕ
  clientId_le : clientId.length ≤ 490
  filter_le : filter.length ≤ 511
  qos_le : qos ≤ 2

/-- The CONNECT that `mqtt_connect` builds. -/
def connectPacket (v5 : Bool) (login : Login) : View :=
  (0x10, putStr [77, 81, 84, 84] ++ [if v5 then 5 else 4, 0x02, 0, 120] ++ (if v5 then [0] else [])
    ++ putStr login.clientId)

/-- The SUBSCRIBE that `mqtt_subscribe` builds. -/
def subscribePacket (v5 : Bool) (login : Login) : View :=
  (0x82, [0, 1] ++ (if v5 then [0] else []) ++ putStr login.filter ++ [UInt8.ofNat login.qos])

/-- `write_all(fd, p, n)`: what went out and the return value; `cut` is where `send` failed
for good, if it did. -/
def writeAll (bytes : List UInt8) : Option ℕ → List UInt8 × ℤ
  | none => (bytes, 0)
  | some k => (bytes.take k, -1)

/-- `len < 2 || body[1] != 0` is what `mqtt_connect` refuses. -/
def connackAccepted (mem : List UInt8) (len : ℕ) : Bool := decide (2 ≤ len) && mem.getD 1 0 == 0

/-- `len < 3 || body[len - 1] >= 0x80` is what `mqtt_subscribe` refuses. -/
def subackAccepted (mem : List UInt8) (len : ℕ) : Bool :=
  decide (3 ≤ len) && decide (mem.getD (len - 1) 0 < 0x80)

/-- How a request and the wait for its answer end. -/
inductive Asked
  /-- 0. -/
  | accepted
  /-- -1, and whether `errno` was left as a failed `send` set it. -/
  | refused (send : Bool)
  /-- The rounds ended before it did. -/
  | waiting

/-- What `mqtt_connect` and `mqtt_subscribe` have in common: write the request, wait for
the packet of type `want`, and look at it.  `clock` is the clock when the wait starts. -/
def ask (request : View) (want : UInt8) (accepted : List UInt8 → ℕ → Bool) (clock : UInt64)
    (cut : Option ℕ) (rounds : List Round) (b : Rbuf) :
    Asked × List UInt8 × Rbuf × List Round :=
  let (written, rc) := writeAll (packetBytes request) cut
  if rc < 0 then (.refused true, written, b, rounds)
  else
    match waitPacket want (clock + 10000000000) rounds b with
    | (.found pk, b, rounds) =>
      (if accepted pk.mem pk.len then .accepted else .refused false, written, b, rounds)
    | (.failed, b, rounds) => (.refused false, written, b, rounds)
    | (.waiting, b, rounds) => (.waiting, written, b, rounds)

/-- `mqtt_connect(rb)`. -/
def mqttConnect (v5 : Bool) (login : Login) (clock : UInt64) (cut : Option ℕ)
    (rounds : List Round) (b : Rbuf) : Asked × List UInt8 × Rbuf × List Round :=
  ask (connectPacket v5 login) 0x20 connackAccepted clock cut rounds b

/-- `mqtt_subscribe(rb, topic, qos)`. -/
def mqttSubscribe (v5 : Bool) (login : Login) (clock : UInt64) (cut : Option ℕ)
    (rounds : List Round) (b : Rbuf) : Asked × List UInt8 × Rbuf × List Round :=
  ask (subscribePacket v5 login) 0x90 subackAccepted clock cut rounds b

/-! ## The program -/

/-- What the outside does during a whole connection. -/
structure Outside where
  /-- `tcp_connect` returned a socket. -/
  connected : Bool
  /-- The clock when the wait for the CONNACK starts, and for the SUBACK. -/
  connectClock : UInt64
  subscribeClock : UInt64
  /-- Where `send` fails for good, for each of the three packets `main` writes. -/
  connectCut : Option ℕ
  subscribeCut : Option ℕ
  disconnectCut : Option ℕ
  /-- `read_schedule` returned 0. -/
  scheduled : Bool
  rounds : List Round
  /-- The text of `errno` after a failed `connect` or `send`. -/
  errno : Option String

/-- What is left of a connection. -/
structure Outcome where
  /-- `{"event":"ready"}` was printed. -/
  ready : Bool
  /-- The exit status, once `main` returned. -/
  status : Option ℕ
  /-- The bytes that went out on the socket. -/
  written : List UInt8
  receiver : Receiver

/-- `main` of a sink or an echo, behind the options.  `cap` is the first capacity of the
read buffer. -/
def runPeer (cfg : Config) (login : Login) (cap : ℕ) (hcap : 0 < cap) (out : Outside) : Outcome :=
  if out.connected = false then
    ⟨false, some 1, [], Receiver.init.fail "connect" out.errno⟩
  else
    match mqttConnect cfg.v5 login out.connectClock out.connectCut out.rounds
        (Rbuf.init cap hcap) with
    | (.refused send, written, _, _) =>
      ⟨false, some 1, written, Receiver.init.fail "connect" (if send then out.errno else none)⟩
    | (.waiting, written, _, _) => ⟨false, none, written, Receiver.init⟩
    | (.accepted, written, b, rounds) =>
      match mqttSubscribe cfg.v5 login out.subscribeClock out.subscribeCut rounds b with
      | (.refused send, written', _, _) =>
        ⟨false, some 1, written ++ written',
          Receiver.init.fail "subscribe" (if send then out.errno else none)⟩
      | (.waiting, written', _, _) => ⟨false, none, written ++ written', Receiver.init⟩
      | (.accepted, written', b, rounds) =>
        if out.scheduled = false then
          ⟨true, some 1, written ++ written', Receiver.init.fail "schedule" none⟩
        else
          let r := (runReceiver cfg rounds b Receiver.init).2
          ⟨true, some (if r.error.isSome then 1 else 0),
            written ++ written' ++ r.written ++ (writeAll [0xe0, 0x00] out.disconnectCut).1, r⟩

/-! ## The first packet of a type -/

/-- The first packet of type `want`, and the packets behind it. -/
def firstOf (want : UInt8) : List View → Option (View × List View)
  | [] => none
  | pk :: pkts => if pk.1 &&& 0xf0 = want then some (pk, pkts) else firstOf want pkts

theorem firstOf_suffix {want : UInt8} {pkts rest : List View} {pk : View}
    (h : firstOf want pkts = some (pk, rest)) : pk :: rest <:+ pkts := by
  induction pkts with
  | nil => cases h
  | cons x pkts ih =>
    rw [firstOf] at h
    split at h
    · cases h
      exact List.suffix_rfl
    · exact (ih h).trans (List.suffix_cons _ _)

/-! ## What a wait takes from the stream -/

/-- The inner loop skips packets up to the first of its type, or takes all there are. -/
theorem seekLoop_spec (want : UInt8) {fuel : ℕ} {b : Rbuf} (hf : b.unread.length < fuel)
    {items : List View} (hlen : ∀ pk ∈ items, pk.2.length ≤ maxRemaining) {ys : List UInt8}
    (hs : b.unread ++ ys = items.flatMap packetBytes) :
    (∃ b' pk rest, seekLoop want fuel b = (b', .packet pk) ∧
        firstOf want items = some (pk.view, rest) ∧
        b'.unread ++ ys = rest.flatMap packetBytes) ∨
      ∃ b' rest, seekLoop want fuel b = (b', .more) ∧ rest <:+ items ∧
        firstOf want items = firstOf want rest ∧ b'.unread ++ ys = rest.flatMap packetBytes ∧
        parse b'.unread = .more := by
  induction fuel generalizing b items with
  | zero => omega
  | succ fuel ih =>
    have hspec := nextPacket_spec b
    have hnext := next_stream parse_incremental parse_nil
      (fun pk hpk => parse_frames (hlen pk hpk)) hs
    rw [seekLoop]
    revert hspec
    generalize nextPacket b = r
    obtain ⟨b', pk | - | -⟩ := r <;> intro hspec
    · simp only at hspec ⊢
      obtain hm | ⟨v, ds, rest, rfl, hi, hrest⟩ := hnext
      · rw [hspec] at hm
        cases hm
      · rw [hspec] at hi
        cases hi
        by_cases hw : pk.hdr &&& 0xf0 = want
        · exact .inl ⟨b', pk, ds, if_pos hw, if_pos hw, hrest⟩
        · have hlt := parse_incremental.item_lt hspec
          have hskip : firstOf want (pk.view :: ds) = firstOf want ds := if_neg hw
          rw [if_neg hw, show (pk.hdr, pk.body) = pk.view from rfl, hskip]
          obtain hfound | ⟨b'', rest, hrun, hsuf, hfirst, hleft, hm⟩ :=
            ih (by omega) (fun pk' hpk' => hlen pk' (List.mem_cons_of_mem _ hpk')) hrest
          · exact .inl hfound
          · exact .inr ⟨b'', rest, hrun, hsuf.trans (List.suffix_cons _ _), hfirst, hleft, hm⟩
    · exact .inr ⟨b', items, rfl, List.suffix_rfl, rfl, by rw [hspec.2]; exact hs,
        by rw [hspec.2]; exact hspec.1⟩
    · obtain hm | ⟨v, ds, rest, -, hi, -⟩ := hnext
      · rw [hspec.1] at hm
        cases hm
      · rw [hspec.1] at hi
        cases hi

/-- What `poll` and `recv` report when no call fails. -/
def Ready.Calm (b : Rbuf) : Ready → Prop
  | .data chunk => chunk ≠ [] ∧ chunk.length ≤ b.prepare.room
  | .timeout | .pollFailed true | .recvFailed true => True
  | .pollFailed false | .recvFailed false => False

/-- A fill in which no call fails adds the bytes that arrived. -/
theorem rbufFill_calm {b : Rbuf} {round : Round} (h : round.ready.Calm b) :
    ¬ (rbufFill b round.ready).2 < 0 ∧
      (rbufFill b round.ready).1.unread = b.unread ++ round.bytes := by
  unfold Round.bytes
  cases hr : round.ready with
  | data chunk =>
    rw [hr] at h
    rw [rbufFill_data b h.1 h.2]
    exact ⟨by simp, by rw [Rbuf.unread_recv _ h.2, Rbuf.unread_prepare]⟩
  | timeout => exact ⟨by simp [rbufFill], by simp [rbufFill]⟩
  | pollFailed eintr =>
    cases eintr with
    | true => exact ⟨by simp [rbufFill], by simp [rbufFill]⟩
    | false => rw [hr] at h; exact h.elim
  | recvFailed again =>
    cases again with
    | true => exact ⟨by simp [rbufFill], by simp [rbufFill]⟩
    | false => rw [hr] at h; exact h.elim

/-- Rounds of a wait before its deadline in which no call fails. -/
def Patient (want : UInt8) (deadline : UInt64) : List Round → Rbuf → Prop
  | [], _ => True
  | round :: rounds, b =>
    match seek want b with
    | (b, .more) => round.now ≤ deadline ∧ round.ready.Calm b ∧
        Patient want deadline rounds (rbufFill b round.ready).1
    | _ => True

/-- **A wait takes the stream up to the first packet of its type, and not a byte more.** -/
theorem waitPacket_spec {want : UInt8} {deadline : UInt64} {rounds : List Round} {b : Rbuf}
    (hcalm : Patient want deadline rounds b) {items : List View}
    (hlen : ∀ pk ∈ items, pk.2.length ≤ maxRemaining)
    (hs : b.unread ++ rounds.flatMap Round.bytes = items.flatMap packetBytes) :
    (∃ pk b' rounds' rest, waitPacket want deadline rounds b = (.found pk, b', rounds') ∧
        firstOf want items = some (pk.view, rest) ∧
        b'.unread ++ rounds'.flatMap Round.bytes = rest.flatMap packetBytes) ∨
      (∃ b', waitPacket want deadline rounds b = (.waiting, b', [])) ∧
        firstOf want items = none := by
  induction rounds generalizing b items with
  | nil =>
    rw [waitPacket]
    obtain ⟨b', pk, rest, hrun, hfirst, hleft⟩ | ⟨b', rest, hrun, hsuf, hfirst, hleft, hm⟩ :=
      seekLoop_spec want (Nat.lt_succ_self _) hlen hs
    · rw [seek, hrun]
      exact .inl ⟨pk, b', [], rest, rfl, hfirst, hleft⟩
    · obtain rfl : rest = [] :=
        eq_nil_of_more hm (fun pk hpk => hlen pk (hsuf.mem hpk)) (by simpa using hleft)
      rw [seek, hrun]
      exact .inr ⟨⟨b', rfl⟩, hfirst⟩
  | cons round rounds ih =>
    rw [Patient] at hcalm
    rw [waitPacket]
    obtain ⟨b', pk, rest, hrun, hfirst, hleft⟩ | ⟨b', rest, hrun, hsuf, hfirst, hleft, -⟩ :=
      seekLoop_spec want (Nat.lt_succ_self _) hlen hs
    · rw [seek, hrun]
      exact .inl ⟨pk, b', round :: rounds, rest, rfl, hfirst, hleft⟩
    · rw [seek, hrun] at hcalm ⊢
      obtain ⟨hnow, hready, hrest⟩ := hcalm
      obtain ⟨hrc, hunread⟩ := rbufFill_calm hready
      simp only
      rw [if_neg (UInt64.not_lt.2 hnow), if_neg hrc, hfirst]
      refine ih hrest (fun pk hpk => hlen pk (hsuf.mem hpk)) ?_
      rw [hunread, List.append_assoc]
      exact hleft

/-! ## A wait that gets no answer -/

/-- A round at which a wait gives up: it begins behind the deadline, or `poll` or `recv` fails
for good, or the broker has closed the connection. -/
def Round.GivesUp (deadline : UInt64) (round : Round) : Prop :=
  deadline < round.now ∨ round.ready = .pollFailed false ∨ round.ready = .recvFailed false ∨
    round.ready = .data []

/-- Of the packets `items`, all has arrived but the bytes `ys`, and no whole packet of the type
`want` is among it. -/
def Lacks (want : UInt8) (items : List View) (ys : List UInt8) : Prop :=
  ∀ pk rest, firstOf want items = some (pk, rest) → (rest.flatMap packetBytes).length < ys.length

theorem Lacks.not_found {want : UInt8} {items rest : List View} {xs ys : List UInt8} {pk : View}
    (h : Lacks want items ys) (hfirst : firstOf want items = some (pk, rest)) :
    xs ++ ys ≠ rest.flatMap packetBytes := by
  intro hs
  have hlt := h pk rest hfirst
  rw [← hs, List.length_append] at hlt
  omega

/-- `wait_packet` returns -1 at such a round, when no packet of its type has come before. -/
theorem waitPacket_failed {want : UInt8} {deadline : UInt64} {quiet : List Round} {b : Rbuf}
    (hcalm : Patient want deadline quiet b) {items : List View}
    (hlen : ∀ pk ∈ items, pk.2.length ≤ maxRemaining) {ys : List UInt8}
    (hs : b.unread ++ (quiet.flatMap Round.bytes ++ ys) = items.flatMap packetBytes)
    (hnone : Lacks want items ys) {last : Round} (hlast : last.GivesUp deadline)
    (more : List Round) :
    ∃ b', waitPacket want deadline (quiet ++ last :: more) b = (.failed, b', more) := by
  induction quiet generalizing b items with
  | nil =>
    rw [List.nil_append, waitPacket]
    obtain ⟨b', pk, rest, -, hfirst, hleft⟩ | ⟨b', rest, hrun, -⟩ :=
      seekLoop_spec want (Nat.lt_succ_self _) hlen hs
    · exact absurd hleft (hnone.not_found hfirst)
    · rw [seek, hrun]
      simp only
      split
      · exact ⟨b', rfl⟩
      · next hnow =>
        have hrc : (rbufFill b' last.ready).2 < 0 := by
          obtain hready | hready | hready := hlast.resolve_left hnow <;> rw [hready] <;>
            simp [rbufFill]
        rw [if_pos hrc]
        exact ⟨_, rfl⟩
  | cons round quiet ih =>
    rw [Patient] at hcalm
    rw [List.cons_append, waitPacket]
    obtain ⟨b', pk, rest, -, hfirst, hleft⟩ | ⟨b', rest, hrun, hsuf, hfirst, hleft, -⟩ :=
      seekLoop_spec want (Nat.lt_succ_self _) hlen hs
    · rw [← List.append_assoc] at hleft
      exact absurd hleft (hnone.not_found hfirst)
    · rw [seek, hrun] at hcalm ⊢
      obtain ⟨hnow, hready, hrest⟩ := hcalm
      obtain ⟨hrc, hunread⟩ := rbufFill_calm hready
      simp only
      rw [if_neg (UInt64.not_lt.2 hnow), if_neg hrc]
      refine ih hrest (fun pk hpk => hlen pk (hsuf.mem hpk)) ?_
        (fun pk rest h => hnone pk rest (hfirst.trans h))
      rw [hunread, List.append_assoc, ← hleft, List.flatMap_cons, List.append_assoc]

/-- A wait that has found its packet leaves the later rounds alone. -/
theorem waitPacket_found {want : UInt8} {deadline : UInt64} {rounds rounds' : List Round}
    {b b' : Rbuf} {pk : Packet} (hcalm : Patient want deadline rounds b) {items : List View}
    (hlen : ∀ pk ∈ items, pk.2.length ≤ maxRemaining) {ys : List UInt8}
    (hs : b.unread ++ (rounds.flatMap Round.bytes ++ ys) = items.flatMap packetBytes)
    (h : waitPacket want deadline rounds b = (.found pk, b', rounds')) :
    ∃ rest, firstOf want items = some (pk.view, rest) ∧
      b'.unread ++ (rounds'.flatMap Round.bytes ++ ys) = rest.flatMap packetBytes ∧
      ∀ more, waitPacket want deadline (rounds ++ more) b = (.found pk, b', rounds' ++ more) := by
  have hmore : ∀ {b₁ : Rbuf} (more : List Round), seek want b = (b₁, .packet pk) →
      waitPacket want deadline more b = (.found pk, b₁, more) := by
    intro b₁ more hseek
    cases more <;> rw [waitPacket, hseek]
  induction rounds generalizing b items with
  | nil =>
    rw [waitPacket] at h
    obtain ⟨b₁, pk₁, rest, hrun, hfirst, hleft⟩ | ⟨b₁, rest, hrun, -⟩ :=
      seekLoop_spec want (Nat.lt_succ_self _) hlen hs
    · rw [seek, hrun] at h
      cases h
      exact ⟨rest, hfirst, hleft, fun more => hmore more hrun⟩
    · rw [seek, hrun] at h
      cases h
  | cons round rounds ih =>
    rw [Patient] at hcalm
    rw [waitPacket] at h
    obtain ⟨b₁, pk₁, rest, hrun, hfirst, hleft⟩ | ⟨b₁, rest, hrun, hsuf, hfirst, hleft, -⟩ :=
      seekLoop_spec want (Nat.lt_succ_self _) hlen hs
    · rw [seek, hrun] at h
      cases h
      exact ⟨rest, hfirst, hleft, fun more => hmore (round :: rounds ++ more) hrun⟩
    · rw [seek, hrun] at h hcalm
      obtain ⟨hnow, hready, hrest⟩ := hcalm
      obtain ⟨hrc, hunread⟩ := rbufFill_calm hready
      simp only at h
      rw [if_neg (UInt64.not_lt.2 hnow), if_neg hrc] at h
      obtain ⟨rest', hfirst', hleft', hall⟩ := ih hrest (fun pk hpk => hlen pk (hsuf.mem hpk))
        (by rw [hunread, List.append_assoc, ← hleft, List.flatMap_cons, List.append_assoc]) h
        fun more hseek => by cases more <;> rw [waitPacket, hseek]
      refine ⟨rest', hfirst.trans hfirst', hleft', fun more => ?_⟩
      rw [List.cons_append, waitPacket, seek, hrun]
      simp only
      rw [if_neg (UInt64.not_lt.2 hnow), if_neg hrc]
      exact hall more

/-! ## The read loop on a buffer that holds packets -/

/-- One `recv()` of the read loop: packets that were in the buffer are handled with those
that arrived. -/
theorem runReceiver_data {cfg : Config} {P : List View → Receiver → Prop} {pkts : List View}
    (hlen : ∀ pk ∈ pkts, pk.2.length ≤ maxRemaining)
    (hanswer : ∀ done r now (pk : Packet), pk.view ∈ pkts → P done r →
      P (done ++ [pk.view]) (r.answer cfg now pk))
    (hflush : ∀ done (r : Receiver) (out : Wbuf), out.contents = [] → P done r →
      P done { r with out := out, written := r.written ++ r.out.contents })
    {round : Round} {rounds : List Round} {b : Rbuf} {chunk : List UInt8}
    (hr : round.ready = .data chunk) (hcalm : Calm cfg b (round :: rounds))
    {items : List View} (hmem : ∀ pk ∈ items, pk ∈ pkts)
    (hs : b.unread ++ (round :: rounds).flatMap Round.bytes = items.flatMap packetBytes)
    {done : List View} {r : Receiver} (h : P done r) :
    ∃ b' r' handled rest, runReceiver cfg (round :: rounds) b r = runReceiver cfg rounds b' r' ∧
      items = handled ++ rest ∧ b'.unread ++ rounds.flatMap Round.bytes = rest.flatMap packetBytes ∧
      parse b'.unread = .more ∧ Calm cfg b' rounds ∧ r'.out.contents = [] ∧
      P (done ++ handled) r' := by
  obtain ⟨hnow, hcut, hready⟩ := hcalm
  rw [hr] at hready
  obtain ⟨hne, hroom, hrest⟩ := hready
  have hstream : b.unread ++ chunk ++ rounds.flatMap Round.bytes = items.flatMap packetBytes := by
    rw [List.flatMap_cons, Round.bytes, hr] at hs
    rw [List.append_assoc]
    exact hs
  obtain ⟨b', pks, rest, hrun, rfl, hleft, -, hm, rfl⟩ :=
    drain_rbufFill (Receiver.answer cfg round.arrival) hne hroom
      (fun pk hpk => hlen pk (hmem pk hpk)) hstream r
  have hP := foldl_answer hanswer round.arrival pks
    (fun pk hpk => hmem _ (List.mem_append_left _ (List.mem_map_of_mem hpk))) h
  obtain ⟨out, hflushed, hempty⟩ :=
    (pks.foldl (Receiver.answer cfg round.arrival) r).out.flush_eq
  have hpos : (0 : ℤ) < chunk.length := by
    have := List.length_pos_iff.2 hne
    omega
  refine ⟨_, _, pks.map Packet.view, rest, ?_, rfl, hleft, hm, hrest, hempty,
    hflush _ _ out hempty hP⟩
  rw [rbufFill_data b hne hroom] at hrun
  simp only at hrun
  rw [runReceiver, if_neg (UInt64.not_le.2 hnow), hr, rbufFill_data b hne hroom]
  simp only
  rw [if_neg (by omega), if_neg (by omega), hrun]
  simp only [lt_irrefl, if_false, hcut]
  rw [hflushed]
  simp only [lt_irrefl, if_false]

/-- A round that brings nothing leaves the read loop where it is. -/
theorem runReceiver_quiet {cfg : Config} {round : Round} {rounds : List Round} {b : Rbuf}
    (hr : ∀ chunk, round.ready ≠ .data chunk) (hcalm : Calm cfg b (round :: rounds))
    (r : Receiver) :
    runReceiver cfg (round :: rounds) b r = runReceiver cfg rounds b.prepare r ∧
      Calm cfg b.prepare rounds ∧ round.bytes = [] := by
  obtain ⟨hnow, -, hready⟩ := hcalm
  rw [runReceiver, if_neg (UInt64.not_le.2 hnow), Round.bytes]
  cases hc : round.ready with
  | data chunk => exact absurd hc (hr chunk)
  | timeout =>
    rw [hc] at hready
    exact ⟨rfl, hready, rfl⟩
  | pollFailed eintr =>
    rw [hc] at hready
    cases eintr with
    | true => exact ⟨rfl, hready, rfl⟩
    | false => exact hready.elim
  | recvFailed again =>
    rw [hc] at hready
    cases again with
    | true => exact ⟨rfl, hready, rfl⟩
    | false => exact hready.elim

/-- **The read loop, started on a buffer that holds packets.**  It handles them and all
that follow, from the first `recv()` on; without one it handles none. -/
theorem runReceiver_resume {cfg : Config} {P : List View → Receiver → Prop} {pkts : List View}
    (hlen : ∀ pk ∈ pkts, pk.2.length ≤ maxRemaining)
    (hanswer : ∀ done r now (pk : Packet), pk.view ∈ pkts → P done r →
      P (done ++ [pk.view]) (r.answer cfg now pk))
    (hflush : ∀ done (r : Receiver) (out : Wbuf), out.contents = [] → P done r →
      P done { r with out := out, written := r.written ++ r.out.contents })
    {rounds : List Round} {b : Rbuf} (hcalm : Calm cfg b rounds)
    {items : List View} (hmem : ∀ pk ∈ items, pk ∈ pkts)
    (hs : b.unread ++ rounds.flatMap Round.bytes = items.flatMap packetBytes)
    {done : List View} {r : Receiver} (h : P done r) :
    if rounds.flatMap Round.bytes = [] then (runReceiver cfg rounds b r).2 = r
    else P (done ++ items) (runReceiver cfg rounds b r).2 ∧
      (runReceiver cfg rounds b r).2.out.contents = [] := by
  induction rounds generalizing b with
  | nil => exact (if_pos rfl).mpr rfl
  | cons round rounds ih =>
    by_cases hr : ∃ chunk, round.ready = .data chunk
    · obtain ⟨chunk, hr⟩ := hr
      obtain ⟨b', r', handled, rest, hrun, rfl, hleft, hm, hcalm', hempty, hP⟩ :=
        runReceiver_data hlen hanswer hflush hr hcalm hmem hs h
      have hbytes : ¬ (round :: rounds).flatMap Round.bytes = [] := by
        obtain ⟨-, -, hready⟩ := hcalm
        rw [hr] at hready
        rw [List.flatMap_cons, Round.bytes, hr]
        exact fun hnil => hready.1 (List.append_eq_nil_iff.1 hnil).1
      rw [if_neg hbytes, hrun, ← List.append_assoc]
      exact runReceiver_rule hlen hanswer hflush hm hcalm'
        (fun pk hpk => hmem pk (List.mem_append_right _ hpk)) hleft hempty hP
    · obtain ⟨hrun, hcalm', hnil⟩ := runReceiver_quiet (fun chunk hc => hr ⟨chunk, hc⟩) hcalm r
      rw [List.flatMap_cons, hnil, List.nil_append] at hs ⊢
      rw [hrun]
      exact ih hcalm' (by rwa [Rbuf.unread_prepare])

/-! ## A whole connection -/

/-- What a stream of packets makes of a connection. -/
inductive Verdict
  /-- There is no CONNACK in it. -/
  | noConnack
  | connectRefused
  /-- There is no SUBACK behind the CONNACK. -/
  | noSuback
  | subscribeRefused
  /-- Both are accepted; these are the packets behind the SUBACK. -/
  | served (pkts : List View)

/-- The first CONNACK decides, and the first SUBACK behind it. -/
def verdict (pkts : List View) : Verdict :=
  match firstOf 0x20 pkts with
  | none => .noConnack
  | some (connack, rest) =>
    if connackAccepted connack.2 connack.2.length then
      match firstOf 0x90 rest with
      | none => .noSuback
      | some (suback, rest) =>
        if subackAccepted suback.2 suback.2.length then .served rest else .subscribeRefused
    else .connectRefused

/-- The buffer and the rounds with which the read loop starts. -/
def afterHandshake (cap : ℕ) (hcap : 0 < cap) (out : Outside) : Option (Rbuf × List Round) :=
  match waitPacket 0x20 (out.connectClock + 10000000000) out.rounds (Rbuf.init cap hcap) with
  | (.found _, b, rounds) =>
    match waitPacket 0x90 (out.subscribeClock + 10000000000) rounds b with
    | (.found _, b, rounds) => some (b, rounds)
    | _ => none
  | _ => none

/-- A connection in which no call fails and no wait runs into its deadline. -/
structure Steady (cfg : Config) (cap : ℕ) (hcap : 0 < cap) (out : Outside) : Prop where
  calls : out.connected = true ∧ out.connectCut = none ∧ out.subscribeCut = none ∧
    out.disconnectCut = none ∧ out.scheduled = true
  connack : Patient 0x20 (out.connectClock + 10000000000) out.rounds (Rbuf.init cap hcap)
  suback : match waitPacket 0x20 (out.connectClock + 10000000000) out.rounds
      (Rbuf.init cap hcap) with
    | (.found _, b, rounds) => Patient 0x90 (out.subscribeClock + 10000000000) rounds b
    | _ => True
  loop : match afterHandshake cap hcap out with
    | some (b, rounds) => Calm cfg b rounds
    | none => True

/-- Both answers of the broker are read from their own bytes only. -/
theorem accepted_view (pk : Packet) :
    connackAccepted pk.mem pk.len = connackAccepted pk.body pk.body.length ∧
      subackAccepted pk.mem pk.len = subackAccepted pk.body pk.body.length := by
  have hbody : pk.body.length = pk.len := by
    rw [Packet.body, List.length_take, min_eq_left pk.len_le]
  have hget : ∀ i < pk.len, pk.mem.getD i 0 = pk.body.getD i 0 := by
    intro i hi
    rw [Packet.body, List.getD_eq_getElem?_getD, List.getD_eq_getElem?_getD,
      List.getElem?_take_of_lt hi]
  rw [hbody]
  constructor
  · unfold connackAccepted
    by_cases h : 2 ≤ pk.len
    · rw [hget 1 h]
    · rw [decide_eq_false h, Bool.false_and, Bool.false_and]
  · unfold subackAccepted
    by_cases h : 3 ≤ pk.len
    · rw [hget (pk.len - 1) (by omega)]
    · rw [decide_eq_false h, Bool.false_and, Bool.false_and]

/-- A request that goes out is answered by the first packet of the type it waits for. -/
theorem ask_found {request : View} {want : UInt8} {accepted : List UInt8 → ℕ → Bool}
    {clock : UInt64} {rounds rounds' : List Round} {b b' : Rbuf} {pk : Packet}
    (h : waitPacket want (clock + 10000000000) rounds b = (.found pk, b', rounds')) :
    ask request want accepted clock none rounds b =
      (if accepted pk.mem pk.len then .accepted else .refused false, packetBytes request, b',
        rounds') := by
  rw [ask, writeAll]
  simp only [lt_irrefl, if_false]
  rw [h]

theorem ask_waiting {request : View} {want : UInt8} {accepted : List UInt8 → ℕ → Bool}
    {clock : UInt64} {rounds rounds' : List Round} {b b' : Rbuf}
    (h : waitPacket want (clock + 10000000000) rounds b = (.waiting, b', rounds')) :
    ask request want accepted clock none rounds b =
      (.waiting, packetBytes request, b', rounds') := by
  rw [ask, writeAll]
  simp only [lt_irrefl, if_false]
  rw [h]

/-- What a connection leaves behind, by what the stream makes of it. -/
def Concludes (cfg : Config) (login : Login) (o : Outcome) (left : Option (Rbuf × List Round)) :
    Verdict → Prop
  | .noConnack =>
    o.ready = false ∧ o.status = none ∧ o.receiver = Receiver.init ∧
      o.written = packetBytes (connectPacket cfg.v5 login)
  | .connectRefused =>
    o.ready = false ∧ o.status = some 1 ∧ o.receiver.error = some "connect: protocol" ∧
      o.written = packetBytes (connectPacket cfg.v5 login)
  | .noSuback =>
    o.ready = false ∧ o.status = none ∧ o.receiver = Receiver.init ∧
      o.written = packetBytes (connectPacket cfg.v5 login) ++
        packetBytes (subscribePacket cfg.v5 login)
  | .subscribeRefused =>
    o.ready = false ∧ o.status = some 1 ∧ o.receiver.error = some "subscribe: protocol" ∧
      o.written = packetBytes (connectPacket cfg.v5 login) ++
        packetBytes (subscribePacket cfg.v5 login)
  | .served pkts =>
    ∃ b rounds handled, left = some (b, rounds) ∧
      handled = (if rounds.flatMap Round.bytes = [] then [] else pkts) ∧
      o.ready = true ∧ o.status = some (if (errorOf cfg handled).isSome then 1 else 0) ∧
      Answered cfg handled o.receiver ∧
      o.written = packetBytes (connectPacket cfg.v5 login) ++
        packetBytes (subscribePacket cfg.v5 login) ++ responses cfg 0 handled ++
        packetBytes (0xe0, [])

/-- The read loop behind the handshake answers every packet that is left, or none. -/
theorem runReceiver_served {cfg : Config} {pkts : List View}
    (hlen : ∀ pk ∈ pkts, pk.2.length ≤ maxRemaining) (hcut : ∀ pk ∈ pkts, ¬ CutPublish cfg pk)
    {rounds : List Round} {b : Rbuf} (hcalm : Calm cfg b rounds)
    (hs : b.unread ++ rounds.flatMap Round.bytes = pkts.flatMap packetBytes) :
    Answered cfg (if rounds.flatMap Round.bytes = [] then [] else pkts)
      (runReceiver cfg rounds b Receiver.init).2 := by
  have hrule := runReceiver_resume (P := Answers cfg) hlen
    (fun done r now pk hpk h => h.answer (by
        have hbody : pk.body.length = pk.len := by
          rw [Packet.body, List.length_take, min_eq_left pk.len_le]
        rw [← hbody]
        exact hlen _ hpk)
      (fun htype hc => hcut _ hpk ⟨htype, hc⟩) now)
    (fun done r out hout h => h.flush hout) hcalm (fun _ h => h) hs (answers_init cfg)
  have hans : ∀ {handled r}, Answers cfg handled r → r.out.contents = [] →
      Answered cfg handled r := by
    intro handled r h hout
    have hbytes := h.bytes
    rw [hout, List.append_nil] at hbytes
    exact ⟨hbytes, h.recvTotal, h.echoedTotal, h.echoAcks, h.sizeMismatch, h.error⟩
  split at hrule
  · next hnil =>
    rw [if_pos hnil, hrule]
    exact hans (answers_init cfg) rfl
  · next hnil =>
    rw [if_neg hnil]
    exact hans hrule.1 hrule.2

theorem runPeer_concludes (cfg : Config) (login : Login) (cap : ℕ) (hcap : 0 < cap) (out : Outside)
    (hsteady : Steady cfg cap hcap out) (pkts : List View)
    (hlen : ∀ pk ∈ pkts, pk.2.length ≤ maxRemaining) (hcut : ∀ pk ∈ pkts, ¬ CutPublish cfg pk)
    (hstream : out.rounds.flatMap Round.bytes = pkts.flatMap packetBytes) :
    Concludes cfg login (runPeer cfg login cap hcap out) (afterHandshake cap hcap out)
      (verdict pkts) := by
  obtain ⟨hconnected, hcut₁, hcut₂, hcut₃, hscheduled⟩ := hsteady.calls
  have hs : (Rbuf.init cap hcap).unread ++ out.rounds.flatMap Round.bytes =
      pkts.flatMap packetBytes := by
    rw [Rbuf.unread_init, List.nil_append, hstream]
  rw [runPeer, if_neg (by rw [hconnected]; decide), mqttConnect, hcut₁, verdict]
  obtain ⟨pk, b, rounds, rest, hwait, hfirst, hleft⟩ | ⟨⟨b, hwait⟩, hfirst⟩ :=
    waitPacket_spec hsteady.connack hlen hs
  · have hpatient := hsteady.suback
    rw [hwait] at hpatient
    rw [ask_found hwait, hfirst, (accepted_view pk).1]
    simp only [show pk.view.2 = pk.body from rfl]
    cases connackAccepted pk.body pk.body.length with
    | false => exact ⟨rfl, rfl, rfl, rfl⟩
    | true =>
      have hsub : ∀ x ∈ rest, x ∈ pkts := fun x hx =>
        (firstOf_suffix hfirst).mem (List.mem_cons_of_mem _ hx)
      simp only [if_true]
      rw [mqttSubscribe, hcut₂]
      obtain ⟨pk', b', rounds', rest', hwait', hfirst', hleft'⟩ | ⟨⟨b', hwait'⟩, hfirst'⟩ :=
        waitPacket_spec hpatient (fun x hx => hlen x (hsub x hx)) hleft
      · rw [ask_found hwait', hfirst', (accepted_view pk').2]
        simp only [show pk'.view.2 = pk'.body from rfl]
        cases subackAccepted pk'.body pk'.body.length with
        | false => exact ⟨rfl, rfl, rfl, rfl⟩
        | true =>
          have hafter : afterHandshake cap hcap out = some (b', rounds') := by
            rw [afterHandshake, hwait]
            simp only
            rw [hwait']
          have hsub' : ∀ x ∈ rest', x ∈ pkts := fun x hx =>
            hsub x ((firstOf_suffix hfirst').mem (List.mem_cons_of_mem _ hx))
          have hcalm := hsteady.loop
          rw [hafter] at hcalm
          have hserved := runReceiver_served (fun x hx => hlen x (hsub' x hx))
            (fun x hx => hcut x (hsub' x hx)) hcalm hleft'
          simp only [if_true, hscheduled, hafter]
          rw [if_neg (by decide), hcut₃]
          refine ⟨b', rounds', _, rfl, rfl, rfl, ?_, hserved, ?_⟩
          · rw [hserved.error]
          · rw [hserved.written]
            rfl
      · rw [ask_waiting hwait', hfirst']
        exact ⟨rfl, rfl, rfl, rfl⟩
  · rw [ask_waiting hwait, hfirst]
    exact ⟨rfl, rfl, rfl, rfl⟩

/-! ## What it writes -/

/-- The acknowledgement of a PUBLISH, as a packet. -/
def publishAckPackets (qos : ℕ) (pid : UInt16) : List View :=
  if qos = 1 then [(0x40, put16 pid)] else if qos = 2 then [(0x50, put16 pid)] else []

/-- What is due for a packet, as packets. -/
def responsePackets (cfg : Config) (j : ℕ) (pk : View) : List View :=
  match wellFormed cfg pk with
  | some (pid, payload) =>
    publishAckPackets (qosOf pk.1) pid ++
      match cfg.mode with
      | .sink => []
      | .echo => [echoPacket cfg j payload]
  | none =>
    if pk.1 &&& 0xf0 = 0x50 then
      if Refused cfg.v5 pk.2 then [] else [(0x62, put16 (idOf pk.2))]
    else if pk.1 &&& 0xf0 = 0x60 then [(0x70, put16 (idOf pk.2))]
    else []

/-- What is due for a list of packets, when `j` payloads have been echoed before. -/
def answerPackets (cfg : Config) : ℕ → List View → List View
  | _, [] => []
  | j, pk :: pkts => responsePackets cfg j pk ++ answerPackets cfg (j + echoes cfg [pk]) pkts

/-- What a connection writes, by what the stream makes of it. -/
def sentPackets (cfg : Config) (login : Login) (left : Option (Rbuf × List Round)) :
    Verdict → List View
  | .noConnack | .connectRefused => [connectPacket cfg.v5 login]
  | .noSuback | .subscribeRefused => [connectPacket cfg.v5 login, subscribePacket cfg.v5 login]
  | .served pkts =>
    [connectPacket cfg.v5 login, subscribePacket cfg.v5 login] ++
      answerPackets cfg 0 (match left with
        | some (_, rounds) => if rounds.flatMap Round.bytes = [] then [] else pkts
        | none => []) ++
      [(0xe0, [])]

theorem ackBytes_eq (type : UInt8) (pid : UInt16) :
    ackBytes type pid = packetBytes (type, put16 pid) := by
  rw [ackBytes, packetBytes, length_put16]
  rfl

theorem response_eq (cfg : Config) (j : ℕ) (pk : View) :
    response cfg j pk = (responsePackets cfg j pk).flatMap packetBytes := by
  have hack : ∀ qos pid, publishAck qos pid = (publishAckPackets qos pid).flatMap packetBytes := by
    intro qos pid
    rw [publishAck, publishAckPackets]
    split_ifs <;> simp [ackBytes_eq]
  rw [response, responsePackets]
  cases wellFormed cfg pk with
  | some msg =>
    simp only
    rw [List.flatMap_append, hack]
    cases cfg.mode <;> simp
  | none =>
    simp only
    split_ifs <;> simp [ackBytes_eq]

theorem responses_eq (cfg : Config) (j : ℕ) (pkts : List View) :
    responses cfg j pkts = (answerPackets cfg j pkts).flatMap packetBytes := by
  induction pkts generalizing j with
  | nil => rfl
  | cons pk pkts ih =>
    rw [responses, answerPackets, List.flatMap_append, response_eq, ih]

/-- An answer is small, and an echo is not too long when none is. -/
theorem length_answerPackets {cfg : Config} {pkts : List View}
    (hecho : ∀ pk ∈ pkts, ¬ LongEcho cfg pk) {j : ℕ} {x : View}
    (hx : x ∈ answerPackets cfg j pkts) : x.2.length ≤ maxRemaining := by
  have hsmall : ∀ pid : UInt16, (put16 pid).length ≤ maxRemaining := by
    intro pid
    rw [length_put16, maxRemaining]
    omega
  induction pkts generalizing j with
  | nil => cases hx
  | cons pk pkts ih =>
    rw [answerPackets, List.mem_append] at hx
    obtain hx | hx := hx
    · rw [responsePackets] at hx
      cases hwf : wellFormed cfg pk with
      | none =>
        rw [hwf] at hx
        simp only at hx
        split_ifs at hx <;> simp only [List.mem_singleton, List.not_mem_nil] at hx <;>
          rw [hx] <;> exact hsmall _
      | some msg =>
        obtain ⟨pid, payload⟩ := msg
        rw [hwf] at hx
        simp only [List.mem_append] at hx
        obtain hx | hx := hx
        · rw [publishAckPackets] at hx
          split_ifs at hx <;> simp only [List.mem_singleton, List.not_mem_nil] at hx <;>
            rw [hx] <;> exact hsmall _
        · cases hmode : cfg.mode with
          | sink =>
            rw [hmode] at hx
            cases hx
          | echo =>
            rw [hmode, List.mem_singleton] at hx
            rw [hx, length_echoPacket]
            exact not_lt.1 fun hlt => hecho pk (List.mem_cons_self ..) ⟨hmode, _, hwf, hlt⟩
    · exact ih (fun pk' hpk' => hecho pk' (List.mem_cons_of_mem _ hpk')) hx

/-- The bytes that a connection writes are the packets it sends. -/
theorem Concludes.written_eq {cfg : Config} {login : Login} {o : Outcome}
    {left : Option (Rbuf × List Round)} {v : Verdict} (h : Concludes cfg login o left v) :
    o.written = (sentPackets cfg login left v).flatMap packetBytes := by
  cases v with
  | noConnack => simpa [sentPackets] using h.2.2.2
  | connectRefused => simpa [sentPackets] using h.2.2.2
  | noSuback => simpa [sentPackets] using h.2.2.2
  | subscribeRefused => simpa [sentPackets] using h.2.2.2
  | served pkts =>
    obtain ⟨b, rounds, handled, rfl, rfl, -, -, -, hwritten⟩ := h
    rw [hwritten, responses_eq]
    simp [sentPackets, List.append_assoc]

/-- What is served was sent. -/
theorem mem_of_mem_served {pkts post : List View} (h : verdict pkts = .served post) {pk : View}
    (hpk : pk ∈ post) : pk ∈ pkts := by
  rw [verdict] at h
  cases hconnack : firstOf 0x20 pkts with
  | none => rw [hconnack] at h; cases h
  | some r =>
    obtain ⟨connack, rest⟩ := r
    rw [hconnack] at h
    simp only at h
    split at h
    · cases hsuback : firstOf 0x90 rest with
      | none => rw [hsuback] at h; cases h
      | some r =>
        obtain ⟨suback, post'⟩ := r
        rw [hsuback] at h
        simp only at h
        split at h
        · cases h
          exact (firstOf_suffix hconnack).mem (List.mem_cons_of_mem _
            ((firstOf_suffix hsuback).mem (List.mem_cons_of_mem _ hpk)))
        · cases h
    · cases h

/-- Every packet it sends has a length that MQTT can spell. -/
theorem length_sentPackets {cfg : Config} {login : Login} {left : Option (Rbuf × List Round)}
    {pkts : List View} (hecho : ∀ pk ∈ pkts, ¬ LongEcho cfg pk) {x : View}
    (hx : x ∈ sentPackets cfg login left (verdict pkts)) : x.2.length ≤ maxRemaining := by
  have hid := login.clientId_le
  have hfilter := login.filter_le
  have hconnect : (connectPacket cfg.v5 login).2.length ≤ maxRemaining := by
    rw [connectPacket, maxRemaining]
    simp only [putStr, List.length_append, length_put16]
    split_ifs <;> simp <;> omega
  have hsubscribe : (subscribePacket cfg.v5 login).2.length ≤ maxRemaining := by
    rw [subscribePacket, maxRemaining]
    simp only [putStr, List.length_append, length_put16]
    split_ifs <;> simp <;> omega
  cases hv : verdict pkts with
  | noConnack | connectRefused =>
    rw [hv, sentPackets, List.mem_singleton] at hx
    rw [hx]
    exact hconnect
  | noSuback | subscribeRefused =>
    rw [hv, sentPackets, List.mem_cons, List.mem_singleton] at hx
    obtain rfl | rfl := hx
    · exact hconnect
    · exact hsubscribe
  | served post =>
    simp only [hv, sentPackets, List.mem_append, List.mem_cons, List.not_mem_nil, or_false] at hx
    obtain ((rfl | rfl) | hx) | rfl := hx
    · exact hconnect
    · exact hsubscribe
    · refine length_answerPackets (fun pk hpk => hecho pk (mem_of_mem_served hv ?_)) hx
      revert hpk
      cases left with
      | none => simp
      | some r => simp only; split <;> simp
    · exact Nat.zero_le _

/-- Its own parser reads back all that a connection writes. -/
theorem runPeer_drains (cfg : Config) (login : Login) (cap : ℕ) (hcap : 0 < cap) (out : Outside)
    (hsteady : Steady cfg cap hcap out) (pkts : List View)
    (hlen : ∀ pk ∈ pkts, pk.2.length ≤ maxRemaining) (hcut : ∀ pk ∈ pkts, ¬ CutPublish cfg pk)
    (hecho : ∀ pk ∈ pkts, ¬ LongEcho cfg pk)
    (hstream : out.rounds.flatMap Round.bytes = pkts.flatMap packetBytes) :
    Drains parse (runPeer cfg login cap hcap out).written
      (sentPackets cfg login (afterHandshake cap hcap out) (verdict pkts)) [] := by
  have hconcludes := runPeer_concludes cfg login cap hcap out hsteady pkts hlen hcut hstream
  have hsent : ∀ pk ∈ sentPackets cfg login (afterHandshake cap hcap out) (verdict pkts),
      pk.2.length ≤ maxRemaining := fun pk hpk => length_sentPackets hecho hpk
  obtain ⟨cs, ds, left, hsplit, hdrains, hleft, -⟩ :=
    Drains.split parse_incremental parse_nil (fun pk hpk => parse_frames (hsent pk hpk))
      (show (runPeer cfg login cap hcap out).written ++ [] = _ from
        (List.append_nil _).trans hconcludes.written_eq)
  rw [List.append_nil] at hleft
  obtain rfl : ds = [] := eq_nil_of_more hdrains.next_left
    (fun pk hpk => hsent pk (by rw [hsplit]; exact List.mem_append_right _ hpk)) hleft
  rw [List.append_nil] at hsplit
  rw [hsplit]
  rwa [hleft] at hdrains

/-! ## A broker that does not answer -/

/-- A connection that waits in vain until one of the rounds gives up.  Of the packets `pkts` that
the broker sends, the bytes `ys` come too late: no whole CONNACK has arrived, or one that
accepts, and behind it no whole SUBACK. -/
inductive Forsaken (cap : ℕ) (hcap : 0 < cap) (out : Outside) (pkts : List View) : Verdict → Prop
  | connack {quiet more : List Round} {last : Round} {ys : List UInt8} :
      out.rounds = quiet ++ last :: more →
      Patient 0x20 (out.connectClock + 10000000000) quiet (Rbuf.init cap hcap) →
      last.GivesUp (out.connectClock + 10000000000) →
      quiet.flatMap Round.bytes ++ ys = pkts.flatMap packetBytes → Lacks 0x20 pkts ys →
      Forsaken cap hcap out pkts .noConnack
  | suback {quiet quiet' more : List Round} {last : Round} {ys : List UInt8} {pk : Packet}
      {b : Rbuf} {connack : View} {rest : List View} :
      out.rounds = quiet ++ last :: more →
      Patient 0x20 (out.connectClock + 10000000000) quiet (Rbuf.init cap hcap) →
      waitPacket 0x20 (out.connectClock + 10000000000) quiet (Rbuf.init cap hcap) =
        (.found pk, b, quiet') →
      Patient 0x90 (out.subscribeClock + 10000000000) quiet' b →
      last.GivesUp (out.subscribeClock + 10000000000) →
      quiet.flatMap Round.bytes ++ ys = pkts.flatMap packetBytes →
      firstOf 0x20 pkts = some (connack, rest) →
      connackAccepted connack.2 connack.2.length = true → Lacks 0x90 rest ys →
      Forsaken cap hcap out pkts .noSuback

/-- What such a connection leaves behind: the peer reports no READY, exits with 1, and names what
failed. -/
def Abandons (cfg : Config) (login : Login) (o : Outcome) : Verdict → Prop
  | .noConnack =>
    o = ⟨false, some 1, packetBytes (connectPacket cfg.v5 login),
      Receiver.init.fail "connect" none⟩
  | .noSuback =>
    o = ⟨false, some 1, packetBytes (connectPacket cfg.v5 login) ++
      packetBytes (subscribePacket cfg.v5 login), Receiver.init.fail "subscribe" none⟩
  | _ => False

theorem ask_failed {request : View} {want : UInt8} {accepted : List UInt8 → ℕ → Bool}
    {clock : UInt64} {rounds rounds' : List Round} {b b' : Rbuf}
    (h : waitPacket want (clock + 10000000000) rounds b = (.failed, b', rounds')) :
    ask request want accepted clock none rounds b =
      (.refused false, packetBytes request, b', rounds') := by
  rw [ask, writeAll]
  simp only [lt_irrefl, if_false]
  rw [h]

/-- **Without its answer, the peer ends and writes nothing more.** -/
theorem runPeer_abandons (cfg : Config) (login : Login) (cap : ℕ) (hcap : 0 < cap) (out : Outside)
    (hconnected : out.connected = true) (hcut₁ : out.connectCut = none)
    (hcut₂ : out.subscribeCut = none) (pkts : List View)
    (hlen : ∀ pk ∈ pkts, pk.2.length ≤ maxRemaining) (v : Verdict)
    (h : Forsaken cap hcap out pkts v) : Abandons cfg login (runPeer cfg login cap hcap out) v := by
  rw [runPeer, if_neg (by rw [hconnected]; decide), mqttConnect, hcut₁]
  cases h with
  | @connack quiet more last ys hrounds hpatient hlast hs hnone =>
    obtain ⟨b', hwait⟩ := waitPacket_failed hpatient hlen
      (by rw [Rbuf.unread_init, List.nil_append, hs]) hnone hlast more
    rw [hrounds, ask_failed hwait]
    rfl
  | @suback quiet quiet' more last ys pk b connack rest hrounds hpatient hfound hpatient' hlast hs
      hconnack haccepted hnone =>
    obtain ⟨rest', hfirst, hleft, hall⟩ := waitPacket_found hpatient hlen
      (by rw [Rbuf.unread_init, List.nil_append, hs]) hfound
    rw [hconnack] at hfirst
    cases hfirst
    have hsub : ∀ x ∈ rest, x ∈ pkts := fun x hx =>
      (firstOf_suffix hconnack).mem (List.mem_cons_of_mem _ hx)
    obtain ⟨b', hwait⟩ := waitPacket_failed hpatient' (fun x hx => hlen x (hsub x hx)) hleft hnone
      hlast more
    rw [hrounds, ask_found (hall (last :: more)), (accepted_view pk).1,
      show pk.body = pk.view.2 from rfl, haccepted]
    simp only [if_true]
    rw [mqttSubscribe, hcut₂, ask_failed hwait]
    rfl

/-- **What a whole connection handles, and what it writes.**  Whatever the segmentation, the
peer connects by the first CONNACK and subscribes by the first SUBACK behind it, drops
what comes before, and answers every packet behind the SUBACK exactly once: those that
arrived with the SUBACK as well, as soon as anything else arrives.  All it writes is framed
packets, CONNECT, SUBSCRIBE, what is due, DISCONNECT, which its own parser reads back unless an
echo is too long.  Without an answer it ends and writes nothing more. -/
theorem runPeer_session (cfg : Config) (login : Login) (cap : ℕ) (hcap : 0 < cap) (out : Outside)
    (pkts : List View) (hlen : ∀ pk ∈ pkts, pk.2.length ≤ maxRemaining) :
    (Steady cfg cap hcap out → (∀ pk ∈ pkts, ¬ CutPublish cfg pk) →
      out.rounds.flatMap Round.bytes = pkts.flatMap packetBytes →
        Concludes cfg login (runPeer cfg login cap hcap out) (afterHandshake cap hcap out)
          (verdict pkts) ∧
        ((∀ pk ∈ pkts, ¬ LongEcho cfg pk) →
          Drains parse (runPeer cfg login cap hcap out).written
            (sentPackets cfg login (afterHandshake cap hcap out) (verdict pkts)) [])) ∧
      (out.connected = true → out.connectCut = none → out.subscribeCut = none →
        ∀ v, Forsaken cap hcap out pkts v →
          Abandons cfg login (runPeer cfg login cap hcap out) v) :=
  ⟨fun hsteady hcut hstream =>
      ⟨runPeer_concludes cfg login cap hcap out hsteady pkts hlen hcut hstream,
        fun hecho => runPeer_drains cfg login cap hcap out hsteady pkts hlen hcut hecho hstream⟩,
    fun hconnected hcut₁ hcut₂ v h =>
      runPeer_abandons cfg login cap hcap out hconnected hcut₁ hcut₂ pkts hlen v h⟩

/-- A connection with a client id, to a broker that sends what is in `chunks`. -/
def outsideOf (chunks : List (List UInt8)) : Outside where
  connected := true
  connectClock := 1
  subscribeClock := 2
  connectCut := none
  subscribeCut := none
  disconnectCut := none
  scheduled := true
  rounds := chunks.map roundOf
  errno := none

def loginAs : Login where
  clientId := [112]
  filter := [116]
  qos := 1
  clientId_le := by decide
  filter_le := by decide
  qos_le := by decide

/-- A QoS 0 PUBLISH comes with the CONNACK, a QoS 1 PUBLISH with the SUBACK, and then a
PINGRESP. -/
def brokerChunks : List (List UInt8) :=
  [[0x20, 3, 0, 0, 0, 0x30, 4, 0, 1, 116, 0],
    [0x90, 4, 0, 1, 0, 1, 0x32, 7, 0, 1, 116, 0, 7, 0, 42], [0xd0, 0]]

/-- A CONNACK and half a SUBACK, and then the broker closes the connection. -/
def forsakenOutside : Outside :=
  { outsideOf [] with
    rounds := [roundOf [0x20, 3, 0, 0, 0, 0x90, 4], ⟨5, .data [], 5, none, none⟩] }

/-- The QoS 1 PUBLISH is handled when the PINGRESP comes; without a SUBACK the peer fails. -/
theorem runPeer_session_example :
    (Concludes sinkV5 loginAs
        (runPeer sinkV5 loginAs 32 (Nat.succ_pos 31) (outsideOf brokerChunks))
        (afterHandshake 32 (Nat.succ_pos 31) (outsideOf brokerChunks))
        (.served [(0x32, [0, 1, 116, 0, 7, 0, 42]), (0xd0, [])]) ∧
      Drains parse (runPeer sinkV5 loginAs 32 (Nat.succ_pos 31) (outsideOf brokerChunks)).written
        [connectPacket true loginAs, subscribePacket true loginAs, (0x40, [0, 7]), (0xe0, [])]
        []) ∧
    Abandons sinkV5 loginAs (runPeer sinkV5 loginAs 32 (Nat.succ_pos 31) forsakenOutside)
      .noSuback := by
  have hserves := (runPeer_session sinkV5 loginAs 32 (Nat.succ_pos 31) (outsideOf brokerChunks)
    [(0x20, [0, 0, 0]), (0x30, [0, 1, 116, 0]), (0x90, [0, 1, 0, 1]),
      (0x32, [0, 1, 116, 0, 7, 0, 42]), (0xd0, [])] (by decide)).1
    { calls := ⟨rfl, rfl, rfl, rfl, rfl⟩
      connack := ⟨by decide, ⟨by decide, by decide⟩, trivial⟩
      suback := show Patient 0x90 _ _ _ from ⟨by decide, ⟨by decide, by decide⟩, trivial⟩
      loop := show Calm sinkV5 _ _ from ⟨by decide, rfl, by decide, by decide, trivial⟩ }
    (by decide) (by decide)
  have hlate : Lacks 0x90 [(0x90, [0, 1, 0, 1])] [0, 1, 0, 1] := by
    rintro pk rest h
    cases h
    decide
  have hforsaken : Forsaken 32 (Nat.succ_pos 31) forsakenOutside
      [(0x20, [0, 0, 0]), (0x90, [0, 1, 0, 1])] .noSuback :=
    @Forsaken.suback 32 _ forsakenOutside _ [roundOf [0x20, 3, 0, 0, 0, 0x90, 4]] _ _ _
      [0, 1, 0, 1] _ _ _ _ rfl ⟨by decide, ⟨by decide, by decide⟩, trivial⟩ rfl trivial
      (.inr (.inr (.inr rfl))) (by decide) rfl (by decide) hlate
  exact ⟨⟨hserves.1, hserves.2 (by decide)⟩,
    (runPeer_session sinkV5 loginAs 32 (Nat.succ_pos 31) forsakenOutside
      [(0x20, [0, 0, 0]), (0x90, [0, 1, 0, 1])] (by decide)).2 rfl rfl rfl _ hforsaken⟩

end Peer
