import MqttBench.Drive.SendTimes
import MqttBench.Peer.Handshake
import MqttBench.Peer.Source

/-!
# Stamps and latencies, from end to end

A stamp is eight bytes that `make(index)` of `bench/drive.py` writes, that `mqtt_peer.c` reads or
sends back, and that `on_message_stamped` reads.  `Run.window_latencies` cuts the latencies of
the measured window out of the table that `on_message_stamped` fills.

* `fromBytes_toBytes8`, `readStamp_toBytes8` — one stamp in both languages.
* `InboxInv` — the table holds the latencies seen so far, in order.
* `windowLatencies_exact` — **the slice between two counts holds the latencies of the messages
  counted between them.**
* `roundTrip_latencies` — **through the echo peer every latency is the arrival less the time the
  message was made**, in order, whatever the segmentation, once anything arrives behind the
  read that brings the SUBACK.
-/

namespace Drive

open Peer Runs

/-! ## One stamp in both languages -/

/-- `int.from_bytes(p, "little")`. -/
def fromBytes (p : List UInt8) : ℕ := Nat.ofDigits 256 (p.map UInt8.toNat)

/-- The digits of a number, put together again. -/
theorem ofDigits_range (v n : ℕ) :
    Nat.ofDigits 256 ((List.range n).map fun i => v / 256 ^ i % 256) = v % 256 ^ n := by
  induction n with
  | zero => simp [Nat.mod_one]
  | succ n ih =>
    rw [List.range_succ, List.map_append, Nat.ofDigits_append, ih, List.map_singleton,
      Nat.ofDigits_singleton, List.length_map, List.length_range, pow_succ, Nat.mod_mul]

theorem length_toBytes8 (now : ℤ) : (toBytes8 now).length = 8 := by simp [toBytes8]

/-- **What the client wrote is read back.** -/
theorem fromBytes_toBytes8 {now : ℤ} (h0 : 0 ≤ now) (h : now < 2 ^ 64) (rest : List UInt8) :
    (fromBytes ((toBytes8 now ++ rest).take 8) : ℤ) = now := by
  have hdigit : ∀ i, (UInt8.ofNat (now.toNat / 256 ^ i % 256)).toNat = now.toNat / 256 ^ i % 256 := by
    intro i
    rw [UInt8.toNat_ofNat']
    omega
  have hbytes : (toBytes8 now).map UInt8.toNat =
      (List.range 8).map fun i => now.toNat / 256 ^ i % 256 := by
    rw [toBytes8, List.map_map]
    exact List.map_congr_left fun i _ => hdigit i
  rw [List.take_left' (length_toBytes8 now), fromBytes, hbytes, ofDigits_range]
  omega

/-- The client and the peer write the same stamp. -/
theorem toBytes8_eq_stampBytes {now : ℤ} (h0 : 0 ≤ now) (h : now < 2 ^ 64) :
    toBytes8 now = stampBytes 8 (UInt64.ofNat now.toNat) := by
  have hnat : (UInt64.ofNat now.toNat).toNat = now.toNat := by
    rw [UInt64.toNat_ofNat']
    omega
  refine List.map_congr_left fun i hi => ?_
  rw [List.mem_range] at hi
  rw [← UInt8.toNat_inj, getElem_stampBytes _ hi, hnat, UInt8.toNat_ofNat']
  omega

/-! ## The receiving client -/

/-- What `on_message_stamped` writes.  `stored` says whether the callback is between its
store and its count; `seen` is a record of the latencies it came to, in order. -/
structure Inbox where
  received : ℕ
  latencies : List ℤ
  overflow : ℕ
  stored : Bool
  seen : List ℤ

/-- `Run(latency_capacity)`. -/
def Inbox.init (latencyCapacity : ℕ) : Inbox := ⟨0, List.replicate latencyCapacity 0, 0, false, []⟩

/-- `now - from_bytes(msg.payload[:8], "little")`. -/
def latencyOf (now : ℤ) (payload : List UInt8) : ℤ := now - fromBytes (payload.take 8)

/-- An item of `array("q")`. -/
def FitsItem (v : ℤ) : Prop := -2 ^ 63 ≤ v ∧ v < 2 ^ 63

instance (v : ℤ) : Decidable (FitsItem v) := inferInstanceAs (Decidable (_ ∧ _))

/-- The store of `on_message_stamped`, with its `except IndexError`. -/
def Inbox.store (s : Inbox) (latency : ℤ) : Inbox :=
  let s := { s with stored := true, seen := s.seen ++ [latency] }
  if s.received < s.latencies.length then
    { s with latencies := s.latencies.set s.received latency }
  else { s with overflow := s.overflow + 1 }

/-- `run.received += 1`. -/
def Inbox.count (s : Inbox) : Inbox := { s with received := s.received + 1, stored := false }

/-- What the thread that runs the callback can do next. -/
inductive InboxAct
  | store (now : ℤ) (payload : List UInt8)
  | raise (now : ℤ) (payload : List UInt8)
  | count

/-- One step.  The callback runs on one thread at a time.  A latency that is no item of the
table raises `OverflowError`, which is not caught: the message is not counted. -/
inductive InboxStep : Inbox → InboxAct → Inbox → Prop
  | store {s : Inbox} {now : ℤ} {payload : List UInt8} : s.stored = false →
      (s.received < s.latencies.length → FitsItem (latencyOf now payload)) →
      InboxStep s (.store now payload) (s.store (latencyOf now payload))
  | raise {s : Inbox} {now : ℤ} {payload : List UInt8} : s.stored = false →
      s.received < s.latencies.length → ¬ FitsItem (latencyOf now payload) →
      InboxStep s (.raise now payload) s
  | count {s : Inbox} : s.stored = true → InboxStep s .count s.count

/-- `run.window_latencies(start, end)`. -/
def windowLatencies (latencies : List ℤ) (start finish : ℕ) : List ℤ :=
  (latencies.take (min finish latencies.length)).drop (min start latencies.length)

/-! ## The table -/

/-- What holds between any two steps. -/
structure InboxInv (latencyCapacity : ℕ) (s : Inbox) : Prop where
  length : s.latencies.length = latencyCapacity
  counted : s.seen.length = s.received + if s.stored then 1 else 0
  /-- The table begins with the latencies seen, as far as it reaches. -/
  kept : s.latencies.take s.seen.length = s.seen.take latencyCapacity
  overflow : s.overflow = s.seen.length - latencyCapacity

theorem inboxInv_init (latencyCapacity : ℕ) : InboxInv latencyCapacity (Inbox.init latencyCapacity)
    where
  length := List.length_replicate
  counted := rfl
  kept := by simp [Inbox.init]
  overflow := (Nat.zero_sub _).symm

theorem InboxInv.store {latencyCapacity : ℕ} {s : Inbox} (h : InboxInv latencyCapacity s)
    (hs : s.stored = false) (v : ℤ) : InboxInv latencyCapacity (s.store v) := by
  have hcounted := h.counted
  have hlength := h.length
  have hoverflow := h.overflow
  have hkept := h.kept
  rw [hs, if_neg (by decide), Nat.add_zero] at hcounted
  unfold Inbox.store
  by_cases hroom : s.received < s.latencies.length
  · simp only [hroom, if_true]
    refine ⟨?_, ?_, ?_, ?_⟩
    · simpa using hlength
    · simp [hcounted]
    · -- the new entry goes behind the entries seen
      have hset : (s.latencies.set s.received v).take (s.received + 1) =
          s.latencies.take s.received ++ [v] := by
        rw [List.take_add_one, List.take_set_of_le le_rfl, List.getElem?_set_self hroom]
        rfl
      rw [List.length_append, List.length_singleton, hcounted, hset, ← hcounted, hkept,
        List.take_of_length_le (by omega),
        List.take_of_length_le (by rw [List.length_append, List.length_singleton]; omega)]
    · simp only [List.length_append, List.length_singleton]
      omega
  · have hfull : s.latencies.length ≤ s.received := not_lt.1 hroom
    simp only [hroom, if_false]
    refine ⟨hlength, by simp [hcounted], ?_, ?_⟩
    · change s.latencies.take (s.seen ++ [v]).length = (s.seen ++ [v]).take latencyCapacity
      rw [List.length_append, List.length_singleton, List.take_append_of_le_length (by omega),
        ← hkept, List.take_of_length_le (by omega), List.take_of_length_le (by omega)]
    · rw [List.length_append, List.length_singleton]
      change s.overflow + 1 = _
      omega

theorem InboxInv.count {latencyCapacity : ℕ} {s : Inbox} (h : InboxInv latencyCapacity s)
    (hs : s.stored = true) : InboxInv latencyCapacity s.count := by
  have hcounted := h.counted
  rw [hs, if_pos rfl] at hcounted
  exact ⟨h.length, hcounted, h.kept, h.overflow⟩

theorem invariant_inboxInv (latencyCapacity : ℕ) :
    Invariant (· = Inbox.init latencyCapacity) InboxStep (InboxInv latencyCapacity) where
  init h := by
    rw [h]
    exact inboxInv_init latencyCapacity
  step h hs := by
    cases hs with
    | store hs _ => exact h.store hs _
    | raise _ _ _ => exact h
    | count hs => exact h.count hs

/-- What was seen is not forgotten, and the count does not go down. -/
theorem seen_prefix {s s' : Inbox} (h : Leads InboxStep s s') :
    s.seen <+: s'.seen ∧ s.received ≤ s'.received := by
  refine h.holds (P := fun x => s.seen <+: x.seen ∧ s.received ≤ x.received) ⟨?_, ?_⟩
  · rintro x rfl
    exact ⟨List.prefix_rfl, le_rfl⟩
  · rintro x a x' ⟨hx, hle⟩ hstep
    cases hstep with
    | store _ _ =>
      refine ⟨?_, ?_⟩
      · rw [Inbox.store]
        split <;> exact hx.trans (List.prefix_append _ _)
      · rw [Inbox.store]
        split <;> exact hle
    | raise _ _ _ => exact ⟨hx, hle⟩
    | count _ => exact ⟨hx, hle.trans (Nat.le_succ _)⟩

/-- What a caller sees of the table, in three states of a run: when the window begins, when it
ends, and when the table is read. -/
structure ReadsWindow (latencyCapacity : ℕ) (s s' s'' : Inbox) : Prop where
  /-- The messages seen when the window ends are the first of those seen in the end. -/
  grows : s.seen <+: s'.seen ∧ s'.seen <+: s''.seen
  /-- The slice holds the latencies of the messages counted from one read to the other, of
  those the table has room for. -/
  slice : windowLatencies s''.latencies s.received s'.received =
    ((s'.seen.take s'.received).take latencyCapacity).drop s.received
  /-- Where nothing overflowed, that is one latency for each message counted. -/
  complete : s''.overflow = 0 →
    (windowLatencies s''.latencies s.received s'.received).length = s'.received - s.received
  /-- What overflowed are the messages seen beyond the table. -/
  overflow : s''.overflow = s''.seen.length - latencyCapacity

/-- **The slice between two counts holds the latencies of the messages counted between
them**, whenever the two counts and the table are read. -/
theorem windowLatencies_exact (latencyCapacity : ℕ) (s s' s'' : Inbox)
    (h : Reachable (· = Inbox.init latencyCapacity) InboxStep s) (h' : Leads InboxStep s s')
    (h'' : Leads InboxStep s' s'') : ReadsWindow latencyCapacity s s' s'' := by
  have hinv' := (h.trans h').holds (invariant_inboxInv latencyCapacity)
  have hinv'' := ((h.trans h').trans h'').holds (invariant_inboxInv latencyCapacity)
  obtain ⟨hgrows, hle⟩ := seen_prefix h'
  obtain ⟨hgrows', hle'⟩ := seen_prefix h''
  have hseen : s'.received ≤ s'.seen.length := by
    rw [hinv'.counted]
    omega
  have hseen'' := hgrows'.length_le
  have hslice : windowLatencies s''.latencies s.received s'.received =
      ((s'.seen.take s'.received).take latencyCapacity).drop s.received := by
    obtain ⟨rest, hrest⟩ := hgrows'
    have htable : s''.latencies.take (min s'.received latencyCapacity) =
        (s'.seen.take s'.received).take latencyCapacity := by
      have hkept := congrArg (List.take (min s'.received latencyCapacity)) hinv''.kept
      rw [List.take_take, List.take_take, ← hrest, List.length_append,
        min_eq_left (by omega), min_eq_left (min_le_right _ _),
        List.take_append_of_le_length ((min_le_left _ _).trans hseen)] at hkept
      rw [hkept, List.take_take, min_comm]
    rw [windowLatencies, hinv''.length, htable]
    -- behind the table there is nothing to drop
    rcases le_total s.received latencyCapacity with hcap | hcap
    · rw [min_eq_left hcap]
    · rw [min_eq_right hcap, List.drop_eq_nil_of_le (by simp), List.drop_eq_nil_of_le]
      exact (List.length_take_le _ _).trans hcap
  refine ⟨⟨hgrows, hgrows'⟩, hslice, fun hzero => ?_, hinv''.overflow⟩
  have hroom : s''.seen.length ≤ latencyCapacity := by
    have := hinv''.overflow
    omega
  rw [hslice, List.length_drop, List.length_take, List.length_take]
  omega

/-! ## Through the echo peer -/

/-- The payloads of the PUBLISHes among `pkts`, in order. -/
def payloadsOf (cfg : Config) (pkts : List View) : List (List UInt8) :=
  pkts.filterMap fun pk => (wellFormed cfg pk).map Prod.snd

theorem payloadsOf_append (cfg : Config) (xs ys : List View) :
    payloadsOf cfg (xs ++ ys) = payloadsOf cfg xs ++ payloadsOf cfg ys :=
  List.filterMap_append

/-- An acknowledgement is no PUBLISH. -/
theorem payloadsOf_of_type {cfg : Config} {hdr : UInt8} (h : hdr &&& 0xf0 ≠ 0x30)
    (body : List UInt8) : payloadsOf cfg [(hdr, body)] = [] := by
  have hwf : wellFormed cfg (hdr, body) = none := if_neg h
  simp [payloadsOf, hwf]

/-- An echo is a PUBLISH with the payload that it echoes. -/
theorem payloadsOf_echoPacket (cfg : Config) (j : ℕ) (payload : List UInt8) :
    payloadsOf cfg [echoPacket cfg j payload] = [payload] := by
  obtain ⟨hqos, hpub⟩ := isPublish_echo cfg j payload
  have htype : IsPublishType (echoPacket cfg j payload) := by
    have hle := cfg.replyQos_le
    unfold IsPublishType echoPacket
    simp only
    interval_cases cfg.replyQos <;> decide
  have hwf : wellFormed cfg (echoPacket cfg j payload) =
      some (if cfg.replyQos = 0 then 0 else echoId j, payload) := by
    rw [wellFormed, if_pos htype, hqos]
    exact readPublish_eq_some_iff.2 hpub
  simp [payloadsOf, hwf]

/-- **The echo sends back the payloads that it was sent**, in order, and no others. -/
theorem payloadsOf_answerPackets {cfg : Config} (hmode : cfg.mode = .echo) (j : ℕ)
    (pkts : List View) : payloadsOf cfg (answerPackets cfg j pkts) = payloadsOf cfg pkts := by
  induction pkts generalizing j with
  | nil => rfl
  | cons pk pkts ih =>
    have hack : ∀ qos pid, payloadsOf cfg (publishAckPackets qos pid) = [] := by
      intro qos pid
      rw [publishAckPackets]
      split_ifs
      · exact payloadsOf_of_type (by decide) _
      · exact payloadsOf_of_type (by decide) _
      · rfl
    have hone : payloadsOf cfg (responsePackets cfg j pk) = payloadsOf cfg [pk] := by
      rw [responsePackets]
      cases hwf : wellFormed cfg pk with
      | some msg =>
        simp only [hmode]
        rw [payloadsOf_append, hack, payloadsOf_echoPacket]
        simp [payloadsOf, hwf]
      | none =>
        have hnone : payloadsOf cfg [pk] = [] := by simp [payloadsOf, hwf]
        rw [hnone]
        simp only
        split_ifs
        · rfl
        · exact payloadsOf_of_type (by decide) _
        · exact payloadsOf_of_type (by decide) _
        · rfl
    rw [answerPackets, payloadsOf_append, ih, hone]
    exact (payloadsOf_append cfg [pk] pkts).symm

/-! ## The round trip -/

/-- One call of `on_message_stamped`, when no other thread looks. -/
def Inbox.deliver (s : Inbox) (message : ℤ × List UInt8) : Inbox :=
  (s.store (latencyOf message.1 message.2)).count

/-- Calls one after another are a run, and see the latencies of their messages. -/
theorem foldl_deliver {messages : List (ℤ × List UInt8)}
    (hfits : ∀ m ∈ messages, FitsItem (latencyOf m.1 m.2)) {s : Inbox} (hs : s.stored = false) :
    Leads InboxStep s (messages.foldl Inbox.deliver s) ∧
      (messages.foldl Inbox.deliver s).stored = false ∧
      (messages.foldl Inbox.deliver s).seen =
        s.seen ++ messages.map fun m => latencyOf m.1 m.2 := by
  induction messages generalizing s with
  | nil => exact ⟨.refl s, hs, by simp⟩
  | cons m messages ih =>
    have hstored : (s.store (latencyOf m.1 m.2)).stored = true := by
      rw [Inbox.store]
      split <;> rfl
    have hseen : (s.deliver m).seen = s.seen ++ [latencyOf m.1 m.2] := by
      rw [Inbox.deliver, Inbox.count, Inbox.store]
      split <;> rfl
    have hstore : Leads InboxStep s (s.store (latencyOf m.1 m.2)) :=
      (Leads.refl s).next (.store hs fun _ => hfits m (List.mem_cons_self ..))
    have hdeliver : Leads InboxStep s (s.deliver m) := hstore.next (.count hstored)
    obtain ⟨hrun, hend, hall⟩ := ih (s := s.deliver m)
      (fun m' hm' => hfits m' (List.mem_cons_of_mem _ hm')) rfl
    refine ⟨hdeliver.trans hrun, hend, ?_⟩
    rw [List.foldl_cons, hall, hseen, List.append_assoc]
    rfl

/-- A time that a monotonic clock shows. -/
def IsClock (now : ℤ) : Prop := 0 ≤ now ∧ now < 2 ^ 63

/-- Messages that carry the stamps of `made` have the differences as their latencies. -/
theorem latencies_of_payloads {made arrivals : List (ℤ × List UInt8)}
    (hclock : ∀ m ∈ made, IsClock m.1)
    (h : arrivals.map Prod.snd = made.map fun m => toBytes8 m.1 ++ m.2) :
    arrivals.map (fun m => latencyOf m.1 m.2) =
      List.zipWith (fun a m => a.1 - m.1) arrivals made := by
  induction arrivals generalizing made with
  | nil => rfl
  | cons a arrivals ih =>
    cases made with
    | nil => cases h
    | cons m made =>
      obtain ⟨hpayload, hrest⟩ := List.cons.inj h
      obtain ⟨h0, hlt⟩ := hclock m (List.mem_cons_self ..)
      rw [List.map_cons, List.zipWith_cons_cons,
        ih (fun m' hm' => hclock m' (List.mem_cons_of_mem _ hm')) hrest, latencyOf, hpayload,
        fromBytes_toBytes8 h0 (by omega)]

/-- The messages that come back.  Those that arrive in one read with the SUBACK stay in the
buffer until anything else arrives. -/
def comesBack (left : Option (Rbuf × List Round)) (made : List (ℤ × List UInt8)) :
    List (ℤ × List UInt8) :=
  match left with
  | some (_, rounds) => if rounds.flatMap Round.bytes = [] then [] else made
  | none => []

theorem mem_of_mem_comesBack {left : Option (Rbuf × List Round)} {made : List (ℤ × List UInt8)}
    {m : ℤ × List UInt8} (h : m ∈ comesBack left made) : m ∈ made := by
  unfold comesBack at h
  split at h
  · split at h
    · cases h
    · exact h
  · cases h

/-- The payloads that an echo peer publishes are those that come back. -/
theorem payloadsOf_sentPackets {cfg : Config} (hmode : cfg.mode = .echo) (login : Login)
    (left : Option (Rbuf × List Round)) {post : List View} {made : List (ℤ × List UInt8)}
    (hsent : payloadsOf cfg post = made.map fun m => toBytes8 m.1 ++ m.2) :
    payloadsOf cfg (sentPackets cfg login left (.served post)) =
      (comesBack left made).map fun m => toBytes8 m.1 ++ m.2 := by
  simp only [sentPackets]
  rw [payloadsOf_append, payloadsOf_append, payloadsOf_answerPackets hmode,
    payloadsOf_of_type (by decide), List.append_nil, ← List.singleton_append, payloadsOf_append,
    connectPacket, subscribePacket, payloadsOf_of_type (by decide), payloadsOf_of_type (by decide),
    List.nil_append, List.nil_append]
  unfold comesBack
  cases left with
  | none => rfl
  | some r =>
    obtain ⟨b, rounds⟩ := r
    simp only
    split
    · rfl
    · exact hsent

/-- **Through the echo peer every latency is the arrival less the time the message was made.**
The client makes messages at the times of `made`, the echo peer is sent their payloads in
order, and what a reader of its connection finds published there is delivered to the client
at the times of `arrivals`.  Then the table of the client's run holds those differences,
in order, as far as it reaches, and counts the rest. -/
theorem roundTrip_latencies (cfg : Config) (hmode : cfg.mode = .echo) (login : Login) (cap : ℕ)
    (hcap : 0 < cap) (out : Outside) (hsteady : Steady cfg cap hcap out) (pkts : List View)
    (hlen : ∀ pk ∈ pkts, pk.2.length ≤ maxRemaining)
    (hcut : ∀ pk ∈ pkts, ¬ CutPublish cfg pk) (hecho : ∀ pk ∈ pkts, ¬ LongEcho cfg pk)
    (hstream : out.rounds.flatMap Round.bytes = pkts.flatMap packetBytes)
    (post : List View) (hserved : verdict pkts = .served post)
    (made arrivals : List (ℤ × List UInt8)) (hclock : ∀ m ∈ made, IsClock m.1)
    (harrival : ∀ m ∈ arrivals, IsClock m.1)
    (hsent : payloadsOf cfg post = made.map fun m => toBytes8 m.1 ++ m.2)
    (sent : List View)
    (hread : Framing.Drains parse (runPeer cfg login cap hcap out).written sent [])
    (hback : arrivals.map Prod.snd = payloadsOf cfg sent) (latencyCapacity : ℕ) :
    let inbox := arrivals.foldl Inbox.deliver (Inbox.init latencyCapacity)
    let back := comesBack (afterHandshake cap hcap out) made
    (∃ b rounds, afterHandshake cap hcap out = some (b, rounds) ∧
        (rounds.flatMap Round.bytes = [] → back = []) ∧
        (rounds.flatMap Round.bytes ≠ [] → back = made)) ∧
      arrivals.length = back.length ∧ inbox.received = back.length ∧
      inbox.latencies.take back.length =
        (List.zipWith (fun a m => a.1 - m.1) arrivals back).take latencyCapacity ∧
      inbox.overflow = back.length - latencyCapacity := by
  intro inbox back
  have hconcludes := runPeer_concludes cfg login cap hcap out hsteady pkts hlen hcut hstream
  have hdrains := runPeer_drains cfg login cap hcap out hsteady pkts hlen hcut hecho hstream
  rw [hserved] at hconcludes hdrains
  obtain ⟨b, rounds, -, hleft, -⟩ := hconcludes
  have hnone : rounds.flatMap Round.bytes = [] → back = [] := by
    intro h
    change comesBack (afterHandshake cap hcap out) made = []
    rw [hleft]
    exact if_pos h
  have hall : rounds.flatMap Round.bytes ≠ [] → back = made := by
    intro h
    change comesBack (afterHandshake cap hcap out) made = made
    rw [hleft]
    exact if_neg h
  have hclock' : ∀ m ∈ back, IsClock m.1 := fun m hm => hclock m (mem_of_mem_comesBack hm)
  have hpayloads : arrivals.map Prod.snd = back.map fun m => toBytes8 m.1 ++ m.2 := by
    rw [hback, (hread.unique hdrains).1]
    exact payloadsOf_sentPackets hmode login _ hsent
  have hlength : arrivals.length = back.length := by
    simpa using congrArg List.length hpayloads
  have hlatencies := latencies_of_payloads hclock' hpayloads
  have hfits : ∀ a ∈ arrivals, FitsItem (latencyOf a.1 a.2) := by
    intro a ha
    have hmem : latencyOf a.1 a.2 ∈ List.zipWith (fun a m => a.1 - m.1) arrivals back := by
      rw [← hlatencies]
      exact List.mem_map_of_mem ha
    obtain ⟨i, hi, heq⟩ := List.mem_iff_getElem.1 hmem
    rw [List.getElem_zipWith] at heq
    rw [List.length_zipWith] at hi
    obtain ⟨ha0, halt⟩ := harrival arrivals[i] (List.getElem_mem _)
    obtain ⟨hm0, hmlt⟩ := hclock' back[i] (List.getElem_mem _)
    rw [← heq, FitsItem]
    omega
  obtain ⟨hrun, hstored, hseen⟩ := foldl_deliver hfits (s := Inbox.init latencyCapacity) rfl
  have hinv := (hrun : Reachable (· = Inbox.init latencyCapacity) InboxStep _).holds
    (invariant_inboxInv latencyCapacity)
  rw [show (Inbox.init latencyCapacity).seen = [] from rfl, List.nil_append, hlatencies] at hseen
  have hcount : inbox.seen.length = back.length := by
    change (arrivals.foldl Inbox.deliver (Inbox.init latencyCapacity)).seen.length = back.length
    rw [hseen, List.length_zipWith, hlength, min_self]
  have hcounted : inbox.seen.length = inbox.received + if inbox.stored then 1 else 0 := hinv.counted
  rw [show inbox.stored = false from hstored, hcount, if_neg (by decide)] at hcounted
  refine ⟨⟨b, rounds, hleft, hnone, hall⟩, hlength, hcounted.symm, ?_, ?_⟩
  · rw [← hcount, hinv.kept, hseen]
  · rw [← hcount]
    exact hinv.overflow

/-- Three messages, the last one beyond a table of two.  The window begins before the second is
counted, and ends behind the third. -/
theorem windowLatencies_exact_example :
    windowLatencies [1, 2] 1 3 = [2] ∧
      ∃ s s' s'', ReadsWindow 2 s s' s'' ∧ s.received = 1 ∧ s'.received = 3 := by
  have h0 : Reachable (· = Inbox.init 2) InboxStep (Inbox.init 2) := .start rfl
  have h1 := h0.next (a := .store 11 [10]) (.store rfl fun _ => by decide)
  have h2 := h1.next (a := .count) (.count rfl)
  have k2 : Leads InboxStep ((Inbox.init 2).store 1).count ((Inbox.init 2).store 1).count := .refl _
  have k3 := k2.next (a := .store 12 [10]) (.store rfl fun _ => by decide)
  have k4 := k3.next (a := .count) (.count rfl)
  have k5 := k4.next (a := .store 13 [10]) (.store rfl fun _ => by decide)
  have k6 := k5.next (a := .count) (.count rfl)
  exact ⟨rfl, _, _, _, windowLatencies_exact 2 _ _ _ h2 k6 (.refl _), rfl, rfl⟩

/-- An echo of an MQTT 3.1.1 run. -/
def echoV4 : Config where
  mode := .echo
  v5 := false
  replyTopic := [114]
  replyQos := 0
  sizes := []
  tMeasure := 0
  tEnd := 10
  tStop := 20
  replyQos_le := sinkV5.replyQos_le
  replyTopic_le := by decide

/-- PUBLISHes with the stamps 5, 6 and 7, the second one at QoS 1.  The first comes with the
SUBACK, the second in two pieces. -/
def stampedChunks : List (List UInt8) :=
  [[0x20, 2, 0, 0],
    [0x90, 3, 0, 1, 1, 0x30, 11, 0, 1, 116, 5, 0, 0, 0, 0, 0, 0, 0, 0x32, 14, 0, 1],
    [116, 0, 7, 6, 0, 0, 0, 0, 0, 0, 0, 42, 0x30, 11, 0, 1, 116, 7, 0, 0, 0, 0, 0, 0, 0]]

def stampedPackets : List View :=
  [(0x30, [0, 1, 116, 5, 0, 0, 0, 0, 0, 0, 0]),
    (0x32, [0, 1, 116, 0, 7, 6, 0, 0, 0, 0, 0, 0, 0, 42]),
    (0x30, [0, 1, 116, 7, 0, 0, 0, 0, 0, 0, 0])]

/-- All three come back; the table has room for two of their latencies. -/
theorem roundTrip_latencies_example :
    let inbox := [((8 : ℤ), toBytes8 5), (10, toBytes8 6 ++ [42]), (12, toBytes8 7)].foldl
      Inbox.deliver (Inbox.init 2)
    inbox.received = 3 ∧ inbox.latencies.take 3 = [3, 4] ∧ inbox.overflow = 1 := by
  have hsteady : Steady echoV4 64 (Nat.succ_pos 63) (outsideOf stampedChunks) :=
    { calls := ⟨rfl, rfl, rfl, rfl, rfl⟩
      connack := ⟨by decide, ⟨by decide, by decide⟩, trivial⟩
      suback := show Patient 0x90 _ _ _ from ⟨by decide, ⟨by decide, by decide⟩, trivial⟩
      loop := show Calm echoV4 _ _ from ⟨by decide, rfl, by decide, by decide, trivial⟩ }
  have hread := runPeer_drains echoV4 loginAs 64 (Nat.succ_pos 63) (outsideOf stampedChunks) hsteady
    ((0x20, [0, 0]) :: (0x90, [0, 1, 1]) :: stampedPackets) (by decide) (by decide) (by decide)
    (by decide)
  have h := roundTrip_latencies echoV4 rfl loginAs 64 (Nat.succ_pos 63) (outsideOf stampedChunks)
    hsteady ((0x20, [0, 0]) :: (0x90, [0, 1, 1]) :: stampedPackets) (by decide) (by decide)
    (by decide) (by decide) stampedPackets rfl [(5, []), (6, [42]), (7, [])]
    [(8, toBytes8 5), (10, toBytes8 6 ++ [42]), (12, toBytes8 7)] (by simp [IsClock])
    (by simp [IsClock]) (by decide) _ hread (by decide) 2
  have hback : comesBack (afterHandshake 64 (Nat.succ_pos 63) (outsideOf stampedChunks))
      [(5, []), (6, [42]), (7, [])] = [(5, []), (6, [42]), (7, [])] := by decide
  rw [hback] at h
  exact ⟨h.2.2.1, h.2.2.2.1, h.2.2.2.2⟩

end Drive
