import MqttBench.Lib.Runs
import MqttBench.Peer.Wbuf

/-!
# The source's reader thread, and the broker it talks to

`source_reader` of `mqtt_peer.c` counts completions and answers PUBREC with PUBREL.  It
keeps no packet ids, so whether its count is right depends on the broker; here it runs
against one that keeps to the protocol.

* `Step` — the system: PUBLISHes, the broker's acknowledgements with or without a
  failure reason, PUBRELs on the way back, and `recv()` with any segmentation.
* `Inv` — its invariant: what the reader has handled is the beginning of what the broker
  sent, and every handshake has sent the acknowledgements of its stage.
* `acked_eq` — the count is the number of successful handshakes plus the number of
  refused PUBACKs.
* `sourceReader_faithful_iff` — **the count never claims a refused publish**, as long
  as no refused PUBACK arrives.
-/

namespace Peer

open Framing Runs

/-! ## The program -/

/-- What `source_reader` writes.  `seen` is a record of the packets it has handled, for
the statements only. -/
structure Reader where
  /-- `c_acked_total`. -/
  acked : ℕ
  out : Wbuf
  /-- The bytes that went out on the socket. -/
  written : List UInt8
  seen : List (UInt8 × List UInt8)

/-- The state the reader starts in. -/
def Reader.init : Reader := ⟨0, Wbuf.init, [], []⟩

/-- The loop body for one packet. -/
def Reader.handle (v5 : Bool) (r : Reader) (pk : Packet) : Reader :=
  let type := pk.hdr &&& 0xf0
  let r := { r with seen := r.seen ++ [pk.view] }
  if type = 0x40 ∨ type = 0x70 then { r with acked := r.acked + 1 }
  else if type = 0x50 ∧ ¬ ackFailed v5 pk.mem pk.len then
    { r with out := putAck r.out 0x62 (ackPid pk.mem pk.len) }
  else r

/-- One round of `source_reader` behind its clock test: the buffer, the counters, and
whether the loop goes on.  The answer that ends the packet loop is not looked at. -/
def readerRound (v5 : Bool) (b : Rbuf) (r : Reader) (ready : Ready) (cut : Option ℕ) :
    Rbuf × Reader × Bool :=
  let (b, rc) := rbufFill b ready
  if rc < 0 then (b, r, false)
  else
    let (b, r, _) := drain (Reader.handle v5) b r
    let (out, sent, rc) := r.out.flush cut
    (b, { r with out := out, written := r.written ++ sent }, decide (0 ≤ rc))

/-! ## What the reader makes of the packets -/

/-- PUBACK or PUBCOMP. -/
def IsAck (pk : UInt8 × List UInt8) : Prop := pk.1 &&& 0xf0 = 0x40 ∨ pk.1 &&& 0xf0 = 0x70

instance (pk : UInt8 × List UInt8) : Decidable (IsAck pk) := inferInstanceAs (Decidable (_ ∨ _))

/-- The PUBREL that is due for a packet: for a PUBREC that does not fail, with its id. -/
def pubrelOf (v5 : Bool) (pk : UInt8 × List UInt8) : List UInt8 :=
  if pk.1 &&& 0xf0 = 0x50 ∧ ¬ Refused v5 pk.2 then ackBytes 0x62 (idOf pk.2) else []

/-- What holds of the reader after any packets: it counts acknowledgements and has
answered each PUBREC. -/
structure Reader.Good (v5 : Bool) (r : Reader) : Prop where
  acked : r.acked = r.seen.countP fun pk => decide (IsAck pk)
  bytes : r.written ++ r.out.contents = r.seen.flatMap (pubrelOf v5)

theorem Reader.good_init (v5 : Bool) : Reader.init.Good v5 := ⟨rfl, rfl⟩

theorem Reader.seen_handle (v5 : Bool) (r : Reader) (pk : Packet) :
    (r.handle v5 pk).seen = r.seen ++ [pk.view] := by
  rw [handle]
  split
  · rfl
  · split <;> rfl

theorem Reader.written_handle (v5 : Bool) (r : Reader) (pk : Packet) :
    (r.handle v5 pk).written = r.written := by
  rw [handle]
  split
  · rfl
  · split <;> rfl

theorem Reader.Good.handle {v5 : Bool} {r : Reader} (h : r.Good v5) (pk : Packet) :
    (r.handle v5 pk).Good v5 := by
  have hview : pk.view = (pk.hdr, pk.mem.take pk.len) := rfl
  constructor
  · rw [seen_handle, List.countP_append, ← h.acked, Reader.handle]
    by_cases hack : pk.hdr &&& 0xf0 = 0x40 ∨ pk.hdr &&& 0xf0 = 0x70
    · have : IsAck pk.view := hack
      rw [if_pos hack]
      simp [this]
    · have : ¬ IsAck pk.view := hack
      rw [if_neg hack]
      split <;> simp [this]
  · rw [seen_handle, written_handle, List.flatMap_append, ← h.bytes, Reader.handle,
      ackFailed_eq pk.len_le, ackPid_eq pk.len_le]
    simp only [List.flatMap_cons, List.flatMap_nil, List.append_nil, pubrelOf, hview,
      decide_eq_true_eq]
    by_cases hack : pk.hdr &&& 0xf0 = 0x40 ∨ pk.hdr &&& 0xf0 = 0x70
    · have h50 : ¬ pk.hdr &&& 0xf0 = 0x50 := by
        rintro h50
        rw [h50] at hack
        revert hack
        decide
      simp [hack, h50]
    · rw [if_neg hack]
      by_cases h50 : pk.hdr &&& 0xf0 = 0x50 ∧ ¬ Refused v5 (pk.mem.take pk.len)
      · rw [if_pos h50, if_pos h50, contents_putAck, List.append_assoc]
      · rw [if_neg h50, if_neg h50, List.append_nil]

theorem Reader.Good.foldl {v5 : Bool} {r : Reader} (h : r.Good v5) (pks : List Packet) :
    (pks.foldl (Reader.handle v5) r).Good v5 ∧
      (pks.foldl (Reader.handle v5) r).seen = r.seen ++ pks.map Packet.view := by
  induction pks generalizing r with
  | nil => exact ⟨h, (List.append_nil _).symm⟩
  | cons pk pks ih =>
    obtain ⟨hgood, hseen⟩ := ih (h.handle pk)
    refine ⟨hgood, ?_⟩
    rw [List.foldl_cons, hseen, seen_handle, List.map_cons, List.append_assoc, List.singleton_append]

/-- A round that hands out the packets `pks`. -/
theorem readerRound_eq {v5 : Bool} {b b' : Rbuf} {r : Reader} {ready : Ready} {rc : ℤ}
    {pks : List Packet} (hfill : (rbufFill b ready).2 = rc) (hrc : 0 ≤ rc)
    (hdrain : drain (Reader.handle v5) (rbufFill b ready).1 r =
      (b', pks.foldl (Reader.handle v5) r, 0)) (hr : r.Good v5) :
    ∃ r' : Reader, readerRound v5 b r ready none = (b', r', true) ∧ r'.Good v5 ∧
      r'.seen = r.seen ++ pks.map Packet.view ∧ r'.out.contents = [] := by
  obtain ⟨hgood, hseen⟩ := hr.foldl pks
  obtain ⟨out, hflush, hempty⟩ := (pks.foldl (Reader.handle v5) r).out.flush_eq
  refine ⟨{ pks.foldl (Reader.handle v5) r with
    out := out
    written := (pks.foldl (Reader.handle v5) r).written ++
      (pks.foldl (Reader.handle v5) r).out.contents }, ?_, ⟨hgood.acked, ?_⟩, hseen, hempty⟩
  · rw [readerRound]
    simp only
    rw [hfill, if_neg (by omega), hdrain]
    simp only [hflush]
    rfl
  · rw [hempty, List.append_nil]
    exact hgood.bytes

/-! ## The system -/

/-- How far the handshake of a PUBLISH has come at the broker. -/
inductive Stage
  /-- No answer yet. -/
  | sent
  /-- PUBACK or PUBREC with a failure reason. -/
  | refused
  /-- PUBREC without one. -/
  | received
  /-- The PUBREL has arrived. -/
  | released
  /-- PUBACK without a failure reason, or PUBCOMP. -/
  | complete
  deriving DecidableEq

/-- The source's connection, from both ends.  `log` lists the packets the broker has
sent, each with the number of the PUBLISH it answers. -/
structure World where
  /-- How many PUBLISHes have been written. -/
  count : ℕ
  /-- The packet id of each. -/
  pid : ℕ → UInt16
  stage : ℕ → Stage
  log : List (Option ℕ × (UInt8 × List UInt8))
  /-- The bytes on their way to the source. -/
  wire : List UInt8
  /-- How many PUBRELs the broker has read. -/
  relsRead : ℕ
  rb : Rbuf
  reader : Reader
  /-- The reader's loop is still running. -/
  alive : Bool

/-- The broker sends a packet. -/
def World.send (w : World) (k : Option ℕ) (pk : UInt8 × List UInt8) : World :=
  { w with log := w.log ++ [(k, pk)], wire := w.wire ++ packetBytes pk }

/-- The handshake of PUBLISH `k` comes to a stage. -/
def World.move (w : World) (k : ℕ) (stage : Stage) : World :=
  { w with stage := Function.update w.stage k stage }

/-- The broker has read the PUBREL of PUBLISH `k`. -/
def World.release (w : World) (k : ℕ) : World :=
  { w with stage := Function.update w.stage k .released, relsRead := w.relsRead + 1 }

/-- The reader makes one round, after which `wire` is still on its way. -/
def World.round (v5 : Bool) (w : World) (ready : Ready) (wire : List UInt8) : World :=
  let (rb, reader, alive) := readerRound v5 w.rb w.reader ready none
  { w with rb := rb, reader := reader, alive := alive, wire := wire }

/-- What an acknowledgement of a packet id looks like: MQTT 5 may add a reason and
properties. -/
def AckBody (v5 : Bool) (pid : UInt16) (body : List UInt8) : Prop :=
  ∃ extra, body = put16 pid ++ extra ∧ (v5 = false → extra = []) ∧ body.length ≤ maxRemaining

/-- What can happen next. -/
inductive Act
  | publish (pid : UInt16)
  | puback (k : ℕ) (body : List UInt8)
  | pubrec (k : ℕ) (body : List UInt8)
  | pubrel (k : ℕ)
  | pubcomp (k : ℕ) (body : List UInt8)
  | other (pk : UInt8 × List UInt8)
  | read (chunk : List UInt8)
  | idle (ready : Ready)
  | stop

/-- One step of the source and a broker that keeps to the protocol: it answers a PUBLISH
once, PUBACK at QoS 1 and PUBREC at QoS 2, and sends PUBCOMP once it has read the PUBREL. -/
inductive Step (v5 : Bool) (qos : ℕ) : World → Act → World → Prop
  | publish {w : World} (pid : UInt16) :
      Step v5 qos w (.publish pid)
        { w with
          count := w.count + 1
          pid := Function.update w.pid w.count pid
          stage := Function.update w.stage w.count .sent }
  | puback {w : World} {k : ℕ} {body : List UInt8} :
      qos = 1 → k < w.count → w.stage k = .sent → AckBody v5 (w.pid k) body →
      Step v5 qos w (.puback k body)
        ((w.send (some k) (0x40, body)).move k (if Refused v5 body then .refused else .complete))
  | pubrec {w : World} {k : ℕ} {body : List UInt8} :
      qos = 2 → k < w.count → w.stage k = .sent → AckBody v5 (w.pid k) body →
      Step v5 qos w (.pubrec k body)
        ((w.send (some k) (0x50, body)).move k (if Refused v5 body then .refused else .received))
  | pubrel {w : World} {k : ℕ} :
      k < w.count → w.stage k = .received →
      (w.reader.written.drop (4 * w.relsRead)).take 4 = ackBytes 0x62 (w.pid k) →
      Step v5 qos w (.pubrel k) (w.release k)
  | pubcomp {w : World} {k : ℕ} {body : List UInt8} :
      k < w.count → w.stage k = .released → AckBody v5 (w.pid k) body →
      Step v5 qos w (.pubcomp k body) ((w.send (some k) (0x70, body)).move k .complete)
  | other {w : World} {pk : UInt8 × List UInt8} :
      ¬ IsAck pk → pk.1 &&& 0xf0 ≠ 0x50 → pk.2.length ≤ maxRemaining →
      Step v5 qos w (.other pk) (w.send none pk)
  | read {w : World} {chunk rest : List UInt8} :
      w.alive = true → w.wire = chunk ++ rest → chunk ≠ [] → chunk.length ≤ w.rb.prepare.room →
      Step v5 qos w (.read chunk) (w.round v5 (.data chunk) rest)
  | idle {w : World} {ready : Ready} :
      w.alive = true → (∀ chunk, ready = .data chunk → chunk = []) →
      Step v5 qos w (.idle ready) (w.round v5 ready w.wire)
  | stop {w : World} : Step v5 qos w .stop { w with alive := false }

/-- Where a run starts: nothing written, nothing on its way. -/
def Start (w : World) : Prop :=
  w.count = 0 ∧ w.log = [] ∧ w.wire = [] ∧ w.relsRead = 0 ∧ w.rb.unread = [] ∧
    w.reader = Reader.init

/-! ## The invariant -/

/-- The packet ends a handshake in success: PUBACK without a failure reason, PUBCOMP. -/
def Completes (v5 : Bool) (pk : UInt8 × List UInt8) : Prop :=
  pk.1 &&& 0xf0 = 0x40 ∧ ¬ Refused v5 pk.2 ∨ pk.1 &&& 0xf0 = 0x70

/-- A PUBACK with a failure reason. -/
def RefusedPuback (v5 : Bool) (pk : UInt8 × List UInt8) : Prop :=
  pk.1 &&& 0xf0 = 0x40 ∧ Refused v5 pk.2

instance (v5 : Bool) (pk : UInt8 × List UInt8) : Decidable (Completes v5 pk) :=
  inferInstanceAs (Decidable (_ ∨ _))

instance (v5 : Bool) (pk : UInt8 × List UInt8) : Decidable (RefusedPuback v5 pk) :=
  inferInstanceAs (Decidable (_ ∧ _))

/-- The numbers of the PUBLISHes whose handshakes end in success by the packets. -/
def finals (v5 : Bool) (log : List (Option ℕ × (UInt8 × List UInt8))) : List ℕ :=
  log.filterMap fun e => if Completes v5 e.2 then e.1 else none

/-- What holds in every reachable state. -/
structure Inv (v5 : Bool) (w : World) : Prop where
  /-- The reader has handled the first packets sent; the bytes behind are the others. -/
  stream : ∃ pending, w.log.map Prod.snd = w.reader.seen ++ pending ∧
    w.rb.unread ++ w.wire = pending.flatMap packetBytes
  more : parse w.rb.unread = .more
  sizes : ∀ e ∈ w.log, e.2.2.length ≤ maxRemaining
  good : w.reader.Good v5
  flushed : w.reader.out.contents = []
  /-- Acknowledgements answer a PUBLISH. -/
  numbered : ∀ e ∈ w.log, IsAck e.2 → e.1.isSome
  /-- A handshake ends in success once. -/
  once : (finals v5 w.log).Nodup
  mem_finals : ∀ k, k ∈ finals v5 w.log ↔ k < w.count ∧ w.stage k = .complete

theorem completes_puback (v5 : Bool) (body : List UInt8) :
    Completes v5 (0x40, body) ↔ ¬ Refused v5 body := by
  have h40 : (0x40 : UInt8) &&& 0xf0 = 0x40 := by decide
  have h70 : ¬ (0x40 : UInt8) &&& 0xf0 = 0x70 := by decide
  exact (or_iff_left h70).trans (and_iff_right h40)

theorem not_completes_pubrec (v5 : Bool) (body : List UInt8) : ¬ Completes v5 (0x50, body) := by
  have h40 : ¬ (0x50 : UInt8) &&& 0xf0 = 0x40 := by decide
  have h70 : ¬ (0x50 : UInt8) &&& 0xf0 = 0x70 := by decide
  exact not_or.2 ⟨fun h => h40 h.1, h70⟩

theorem completes_pubcomp (v5 : Bool) (body : List UInt8) : Completes v5 (0x70, body) :=
  .inr (show (0x70 : UInt8) &&& 0xf0 = 0x70 by decide)

theorem finals_append (v5 : Bool) (xs ys : List (Option ℕ × (UInt8 × List UInt8))) :
    finals v5 (xs ++ ys) = finals v5 xs ++ finals v5 ys := List.filterMap_append

theorem finals_completes {v5 : Bool} {k : ℕ} {pk : UInt8 × List UInt8} (h : Completes v5 pk) :
    finals v5 [(some k, pk)] = [k] := by simp [finals, h]

theorem finals_of_not {v5 : Bool} {k : Option ℕ} {pk : UInt8 × List UInt8}
    (h : ¬ Completes v5 pk) : finals v5 [(k, pk)] = [] := by simp [finals, h]

theorem inv_start {v5 : Bool} {w : World} (h : Start w) : Inv v5 w := by
  obtain ⟨hcount, hlog, hwire, -, hunread, hreader⟩ := h
  refine ⟨⟨[], ?_, ?_⟩, ?_, ?_, ?_, ?_, ?_, ?_, fun k => ?_⟩
  · rw [hlog, hreader]; rfl
  · rw [hunread, hwire]; rfl
  · rw [hunread, parse_nil]
  · rw [hlog]; exact fun _ he => absurd he List.not_mem_nil
  · rw [hreader]; exact Reader.good_init v5
  · rw [hreader]; rfl
  · rw [hlog]; exact fun _ he => absurd he List.not_mem_nil
  · rw [hlog]; exact List.nodup_nil
  · rw [hlog, hcount]; simp [finals]

/-- A packet the broker sends is behind everything it has sent. -/
theorem Inv.send {v5 : Bool} {w : World} (h : Inv v5 w) {k : Option ℕ} {pk : UInt8 × List UInt8}
    (hsize : pk.2.length ≤ maxRemaining) (hk : IsAck pk → k.isSome) :
    (∃ pending, (w.send k pk).log.map Prod.snd = w.reader.seen ++ pending ∧
        w.rb.unread ++ (w.send k pk).wire = pending.flatMap packetBytes) ∧
      (∀ e ∈ (w.send k pk).log, e.2.2.length ≤ maxRemaining) ∧
      ∀ e ∈ (w.send k pk).log, IsAck e.2 → e.1.isSome := by
  obtain ⟨pending, hlog, hbytes⟩ := h.stream
  refine ⟨⟨pending ++ [pk], ?_, ?_⟩, ?_, ?_⟩
  · simp only [World.send, List.map_append, hlog, List.append_assoc]
    rfl
  · simp only [World.send]
    rw [← List.append_assoc, hbytes, List.flatMap_append]
    simp
  · intro e he
    rcases List.mem_append.1 he with he | he
    · exact h.sizes e he
    · rw [List.mem_singleton.1 he]
      exact hsize
  · intro e he
    rcases List.mem_append.1 he with he | he
    · exact h.numbered e he
    · rw [List.mem_singleton.1 he]
      exact hk

theorem Completes.isAck {v5 : Bool} {pk : UInt8 × List UInt8} (h : Completes v5 pk) : IsAck pk :=
  h.imp And.left id

/-- The broker answers PUBLISH `k`: the invariant survives when the packet completes the
handshake exactly if the new stage says so. -/
theorem Inv.answer {v5 : Bool} {w : World} (h : Inv v5 w) {k : ℕ} {pk : UInt8 × List UInt8}
    {stage : Stage} (hk : k < w.count) (hstage : w.stage k ≠ .complete)
    (hsize : pk.2.length ≤ maxRemaining) (hcomplete : stage = .complete ↔ Completes v5 pk) :
    Inv v5 ((w.send (some k) pk).move k stage) := by
  obtain ⟨hstream, hsizes, hnumbered⟩ := h.send hsize (k := some k) fun _ => rfl
  have hnew : k ∉ finals v5 w.log := fun hmem => hstage ((h.mem_finals k).1 hmem).2
  have hfinals : finals v5 ((w.send (some k) pk).move k stage).log =
      finals v5 w.log ++ finals v5 [(some k, pk)] := finals_append v5 _ _
  refine ⟨hstream, h.more, hsizes, h.good, h.flushed, hnumbered, ?_, fun j => ?_⟩
  · rw [hfinals]
    by_cases hc : Completes v5 pk
    · rw [finals_completes hc]
      rw [← List.concat_eq_append]
      exact List.Nodup.concat hnew h.once
    · rw [finals_of_not hc, List.append_nil]
      exact h.once
  · rw [hfinals, List.mem_append, h.mem_finals]
    simp only [World.move, World.send]
    by_cases hj : j = k
    · subst hj
      rw [Function.update_self]
      by_cases hc : Completes v5 pk
      · rw [finals_completes hc]
        simp [hk, hcomplete.2 hc]
      · rw [finals_of_not hc]
        simp [hstage, mt hcomplete.1 hc]
    · rw [Function.update_of_ne hj]
      by_cases hc : Completes v5 pk
      · rw [finals_completes hc]
        simp [hj]
      · rw [finals_of_not hc]
        simp

/-- Rounds of the reader: it hands out a beginning of what is pending. -/
theorem Inv.round {v5 : Bool} {w : World} (h : Inv v5 w) {ready : Ready} {rest : List UInt8}
    {pks : List Packet} {b' : Rbuf} {left pending : List (UInt8 × List UInt8)}
    (hlog : w.log.map Prod.snd = w.reader.seen ++ pending)
    (hpending : pending = pks.map Packet.view ++ left) (hrc : 0 ≤ (rbufFill w.rb ready).2)
    (hdrain : drain (Reader.handle v5) (rbufFill w.rb ready).1 w.reader =
      (b', pks.foldl (Reader.handle v5) w.reader, 0))
    (hleft : b'.unread ++ rest = left.flatMap packetBytes) (hmore : parse b'.unread = .more) :
    Inv v5 (w.round v5 ready rest) := by
  obtain ⟨r', hround, hgood, hseen, hempty⟩ := readerRound_eq rfl hrc hdrain h.good
  have heq : w.round v5 ready rest =
      { w with rb := b', reader := r', alive := true, wire := rest } := by
    rw [World.round, hround]
  rw [heq]
  refine ⟨⟨left, ?_, hleft⟩, hmore, h.sizes, hgood, hempty, h.numbered, h.once, h.mem_finals⟩
  rw [hlog, hseen, hpending, List.append_assoc]

theorem Inv.read {v5 : Bool} {w : World} (h : Inv v5 w) {chunk rest : List UInt8}
    (hwire : w.wire = chunk ++ rest) (hne : chunk ≠ [])
    (hroom : chunk.length ≤ w.rb.prepare.room) : Inv v5 (w.round v5 (.data chunk) rest) := by
  obtain ⟨pending, hlog, hbytes⟩ := h.stream
  have hsizes : ∀ pk ∈ pending, pk.2.length ≤ maxRemaining := by
    intro pk hpk
    have hmem : pk ∈ w.log.map Prod.snd := by
      rw [hlog]
      exact List.mem_append_right _ hpk
    obtain ⟨e, he, rfl⟩ := List.mem_map.1 hmem
    exact h.sizes e he
  obtain ⟨b', pks, left, hdrain, hpending, hleft, -, hmore, -⟩ :=
    drain_rbufFill (Reader.handle v5) hne hroom hsizes
      (by rw [List.append_assoc, ← hwire]; exact hbytes) w.reader
  refine h.round hlog hpending ?_ hdrain hleft hmore
  rw [rbufFill_data _ hne hroom]
  exact Int.natCast_nonneg _

theorem Inv.idle {v5 : Bool} {w : World} (h : Inv v5 w) {ready : Ready}
    (hready : ∀ chunk, ready = .data chunk → chunk = []) : Inv v5 (w.round v5 ready w.wire) := by
  obtain ⟨pending, hlog, hbytes⟩ := h.stream
  have hfill : (rbufFill w.rb ready).1 = w.rb.prepare := by
    cases ready with
    | data chunk => rw [hready chunk rfl, rbufFill, if_pos (by simp)]
    | _ => rfl
  have hunread : (rbufFill w.rb ready).1.unread = w.rb.unread := by
    rw [hfill, Rbuf.unread_prepare]
  rcases lt_or_ge (rbufFill w.rb ready).2 0 with hrc | hrc
  · have heq : w.round v5 ready w.wire = { w with rb := (rbufFill w.rb ready).1, alive := false } := by
      rw [World.round, readerRound]
      simp only
      rw [if_pos hrc]
    rw [heq]
    refine ⟨⟨pending, hlog, ?_⟩, ?_, h.sizes, h.good, h.flushed, h.numbered, h.once, h.mem_finals⟩
    · simp only [hunread, hbytes]
    · simp only [hunread, h.more]
  · obtain ⟨b', pks, hdrain, hleft, hview⟩ :=
      drain_of_drains (Reader.handle v5) (.stop (by rw [hunread]; exact h.more)) w.reader
    rw [hunread] at hleft
    exact h.round hlog (by rw [hview, List.nil_append]) hrc hdrain (by rw [hleft]; exact hbytes)
      (by rw [hleft]; exact h.more)

/-- **Every step keeps the invariant.** -/
theorem Inv.step {v5 : Bool} {qos : ℕ} {w w' : World} {a : Act} (h : Inv v5 w)
    (hs : Step v5 qos w a w') : Inv v5 w' := by
  cases hs with
  | publish pid =>
    refine ⟨h.stream, h.more, h.sizes, h.good, h.flushed, h.numbered, h.once, fun k => ?_⟩
    rw [h.mem_finals]
    by_cases hk : k = w.count
    · subst hk
      simp
    · simp only [Function.update_of_ne hk]
      refine and_congr_left fun _ => ?_
      omega
  | @puback k body hq hk hstage hbody =>
    obtain ⟨extra, rfl, -, hsize⟩ := hbody
    refine h.answer hk (by rw [hstage]; decide) hsize ?_
    rw [completes_puback]
    split <;> simp_all
  | @pubrec k body hq hk hstage hbody =>
    obtain ⟨extra, rfl, -, hsize⟩ := hbody
    refine h.answer hk (by rw [hstage]; decide) hsize (iff_of_false ?_ (not_completes_pubrec v5 _))
    split <;> decide
  | @pubrel k hk hstage _ =>
    refine ⟨h.stream, h.more, h.sizes, h.good, h.flushed, h.numbered, h.once, fun j => ?_⟩
    refine (h.mem_finals j).trans ?_
    by_cases hj : j = k
    · subst hj
      simp [World.release, hstage]
    · simp [World.release, Function.update_of_ne hj]
  | @pubcomp k body hk hstage hbody =>
    obtain ⟨extra, rfl, -, hsize⟩ := hbody
    exact h.answer hk (by rw [hstage]; decide) hsize (iff_of_true rfl (completes_pubcomp v5 _))
  | @other pk hack h50 hsize =>
    obtain ⟨hstream, hsizes, hnumbered⟩ := h.send (k := none) hsize fun hk => absurd hk hack
    have hfinals : finals v5 (w.send none pk).log = finals v5 w.log := by
      have := finals_append v5 w.log [(none, pk)]
      rwa [finals_of_not fun hc => hack hc.isAck, List.append_nil] at this
    exact ⟨hstream, h.more, hsizes, h.good, h.flushed, hnumbered, hfinals ▸ h.once,
      fun k => by rw [hfinals]; exact h.mem_finals k⟩
  | read _ hwire hne hroom => exact h.read hwire hne hroom
  | idle _ hready => exact h.idle hready
  | stop => exact ⟨h.stream, h.more, h.sizes, h.good, h.flushed, h.numbered, h.once, h.mem_finals⟩

theorem invariant_inv (v5 : Bool) (qos : ℕ) : Invariant Start (Step v5 qos) (Inv v5) where
  init := inv_start
  step := Inv.step

/-! ## The count -/

/-- What the broker has accepted: PUBACK or PUBREC without a failure reason. -/
def World.accepted (w : World) : Finset ℕ :=
  (Finset.range w.count).filter fun k =>
    w.stage k = .received ∨ w.stage k = .released ∨ w.stage k = .complete

/-- The packets the reader has handled, with the numbers of the PUBLISHes they answer. -/
def World.handled (w : World) : List (Option ℕ × (UInt8 × List UInt8)) :=
  w.log.take w.reader.seen.length

/-- The PUBLISHes whose handshake has ended in success by what the reader has handled. -/
def World.succeeded (v5 : Bool) (w : World) : Finset ℕ := (finals v5 w.handled).toFinset

theorem Inv.handled_eq {v5 : Bool} {w : World} (h : Inv v5 w) :
    w.handled.map Prod.snd = w.reader.seen := by
  obtain ⟨pending, hlog, -⟩ := h.stream
  rw [World.handled, List.map_take, hlog, List.take_left]

/-- An acknowledgement completes a handshake or is a refused PUBACK, and not both. -/
theorem isAck_iff (v5 : Bool) (pk : UInt8 × List UInt8) :
    IsAck pk ↔ Completes v5 pk ∨ RefusedPuback v5 pk := by
  by_cases hf : Refused v5 pk.2 <;> simp [IsAck, Completes, RefusedPuback, hf, or_comm]

theorem not_refusedPuback {v5 : Bool} {pk : UInt8 × List UInt8} (h : Completes v5 pk) :
    ¬ RefusedPuback v5 pk := by
  rintro ⟨h40, hf⟩
  rcases h with ⟨-, hnf⟩ | h70
  · exact hnf hf
  · rw [h40] at h70
    exact absurd h70 (by decide)

theorem countP_isAck (v5 : Bool) (log : List (Option ℕ × (UInt8 × List UInt8)))
    (hnum : ∀ e ∈ log, IsAck e.2 → e.1.isSome) :
    (log.countP fun e => decide (IsAck e.2)) =
      (finals v5 log).length + log.countP fun e => decide (RefusedPuback v5 e.2) := by
  induction log with
  | nil => rfl
  | cons e log ih =>
    obtain ⟨k, pk⟩ := e
    have hrest := ih fun e he => hnum e (List.mem_cons_of_mem _ he)
    have hcons : finals v5 ((k, pk) :: log) = finals v5 [(k, pk)] ++ finals v5 log :=
      finals_append v5 [(k, pk)] log
    rw [List.countP_cons, List.countP_cons, hrest, hcons, List.length_append]
    by_cases hc : Completes v5 pk
    · obtain ⟨j, rfl⟩ := Option.isSome_iff_exists.1 (hnum (k, pk) (by simp) hc.isAck)
      rw [finals_completes hc]
      simp [hc.isAck, not_refusedPuback hc]
      omega
    · rw [finals_of_not hc]
      by_cases hr : RefusedPuback v5 pk
      · simp [(isAck_iff v5 pk).2 (.inr hr), hr]
        omega
      · simp [mt (isAck_iff v5 pk).1 (not_or.2 ⟨hc, hr⟩), hr]

/-- **The count is the number of successful handshakes, plus the refused PUBACKs.** -/
theorem Inv.acked_eq {v5 : Bool} {w : World} (h : Inv v5 w) :
    w.reader.acked = (w.succeeded v5).card +
      w.reader.seen.countP fun pk => decide (RefusedPuback v5 pk) := by
  have hsub : (finals v5 w.handled).Sublist (finals v5 w.log) :=
    (List.take_sublist _ _).filterMap _
  have hcard : (w.succeeded v5).card = (finals v5 w.handled).length :=
    List.toFinset_card_of_nodup (h.once.sublist hsub)
  have hcount := countP_isAck v5 w.handled fun e he => h.numbered e (List.mem_of_mem_take he)
  rw [h.good.acked, hcard, ← h.handled_eq, List.countP_map, List.countP_map]
  exact hcount

theorem Inv.succeeded_subset {v5 : Bool} {w : World} (h : Inv v5 w) :
    w.succeeded v5 ⊆ w.accepted := by
  intro k hk
  have hmem : k ∈ finals v5 w.log :=
    ((List.take_sublist _ _).filterMap _).subset (List.mem_toFinset.1 hk)
  obtain ⟨hlt, hstage⟩ := (h.mem_finals k).1 hmem
  simp [World.accepted, hlt, hstage]

/-- When nothing is on its way, the successful handshakes are the completed ones. -/
theorem Inv.succeeded_of_quiet {v5 : Bool} {w : World} (h : Inv v5 w) (hwire : w.wire = [])
    (hunread : w.rb.unread = []) (k : ℕ) :
    k ∈ w.succeeded v5 ↔ k < w.count ∧ w.stage k = .complete := by
  obtain ⟨pending, hlog, hbytes⟩ := h.stream
  have hnil : pending = [] := by
    cases pending with
    | nil => rfl
    | cons pk pending =>
      rw [hwire, hunread, List.flatMap_cons] at hbytes
      cases hbytes
  have hhandled : w.handled = w.log := by
    have := congrArg List.length hlog
    rw [hnil, List.append_nil, List.length_map] at this
    rw [World.handled, ← this, List.take_length]
  rw [World.succeeded, List.mem_toFinset, hhandled, h.mem_finals]

/-- The reader's report is right: it has counted the handshakes that ended in success, no
more than the broker accepted, and has written one PUBREL with its id for each PUBREC
that does not fail. -/
structure Faithful (v5 : Bool) (w : World) : Prop where
  acked : w.reader.acked = (w.succeeded v5).card
  acked_le : w.reader.acked ≤ w.accepted.card
  pubrels : w.reader.written = w.reader.seen.flatMap (pubrelOf v5)

/-- **In every reachable state the reader's report is right exactly when no PUBACK with a
failure reason has arrived.**  The PUBRELs are right in any case. -/
theorem sourceReader_faithful_iff (v5 : Bool) (qos : ℕ) (w : World)
    (h : Reachable Start (Step v5 qos) w) :
    (Faithful v5 w ↔ ∀ pk ∈ w.reader.seen, ¬ RefusedPuback v5 pk) ∧
      w.reader.written = w.reader.seen.flatMap (pubrelOf v5) ∧
      (w.wire = [] → w.rb.unread = [] →
        ∀ k, k ∈ w.succeeded v5 ↔ k < w.count ∧ w.stage k = .complete) := by
  have hinv := h.holds (invariant_inv v5 qos)
  have hcount := hinv.acked_eq
  have hwritten : w.reader.written = w.reader.seen.flatMap (pubrelOf v5) := by
    have := hinv.good.bytes
    rwa [hinv.flushed, List.append_nil] at this
  refine ⟨⟨fun hf pk hpk hr => ?_, fun hnone => ?_⟩, hwritten, hinv.succeeded_of_quiet⟩
  · have hpos : 0 < w.reader.seen.countP fun pk => decide (RefusedPuback v5 pk) :=
      List.countP_pos_iff.2 ⟨pk, hpk, by simpa using hr⟩
    have := hf.acked
    omega
  · have hzero : (w.reader.seen.countP fun pk => decide (RefusedPuback v5 pk)) = 0 :=
      List.countP_eq_zero.2 fun pk hpk => by simpa using hnone pk hpk
    rw [hzero, Nat.add_zero] at hcount
    exact ⟨hcount, hcount.trans_le (Finset.card_le_card hinv.succeeded_subset), hwritten⟩

/-! ## Two runs -/

/-- A connection with PUBLISH 0 written, packet id 1. -/
def published : World where
  count := 1
  pid := Function.update (fun _ => 0) 0 1
  stage := Function.update (fun _ => .sent) 0 .sent
  log := []
  wire := []
  relsRead := 0
  rb := Rbuf.init 16 (by decide)
  reader := Reader.init
  alive := true

theorem reachable_published (v5 : Bool) (qos : ℕ) : Reachable Start (Step v5 qos) published := by
  have hstart : Start { published with
      count := 0
      pid := fun _ => 0
      stage := fun _ => .sent } := ⟨rfl, rfl, rfl, rfl, rfl, rfl⟩
  exact .next (.start hstart) (.publish 1)

/-- At QoS 1 the broker refuses it: quota exceeded. -/
def quotaExceeded : World :=
  ((published.send (some 0) (0x40, [0, 1, 0x97])).move 0
    (if Refused true [0, 1, 0x97] then .refused else .complete)).round true
      (.data [0x40, 3, 0, 1, 0x97]) []

/-- **The refused publish is counted.** -/
theorem sourceReader_counts_refused :
    Reachable Start (Step true 1) quotaExceeded ∧ quotaExceeded.reader.acked = 1 ∧
      quotaExceeded.accepted = ∅ ∧ ¬ Faithful true quotaExceeded := by
  have hanswer : Step true 1 published (.puback 0 [0, 1, 0x97]) _ :=
    .puback rfl (by decide) rfl ⟨[0x97], rfl, by decide, by decide⟩
  have hread : Step true 1 _ (.read [0x40, 3, 0, 1, 0x97]) quotaExceeded :=
    .read rfl (by decide) (by decide) (by decide)
  have hacked : quotaExceeded.reader.acked = 1 := by decide
  have hnone : quotaExceeded.accepted = ∅ := by decide
  refine ⟨.next (.next (reachable_published true 1) hanswer) hread, hacked, hnone, fun hf => ?_⟩
  have hle := hf.acked_le
  rw [hacked, hnone] at hle
  exact absurd hle (by decide)

/-- At QoS 2 the broker accepts it, and the reader answers the PUBREC. -/
def answeredPubrec : World :=
  ((published.send (some 0) (0x50, [0, 1])).move 0
    (if Refused false [0, 1] then .refused else .received)).round false (.data [0x50, 2, 0, 1]) []

/-- The handshake is completed. -/
def completedPubcomp : World :=
  (((answeredPubrec.release 0).send (some 0) (0x70, [0, 1])).move 0 .complete).round false
    (.data [0x70, 2, 0, 1]) []

/-- A whole QoS 2 handshake. -/
theorem sourceReader_faithful_iff_example : Faithful false completedPubcomp := by
  have hpubrec : Step false 2 published (.pubrec 0 [0, 1]) _ :=
    .pubrec rfl (by decide) rfl ⟨[], rfl, fun _ => rfl, by decide⟩
  have hanswer : Step false 2 _ (.read [0x50, 2, 0, 1]) answeredPubrec :=
    .read rfl (by decide) (by decide) (by decide)
  have hpubrel : Step false 2 answeredPubrec (.pubrel 0) _ :=
    .pubrel (by decide) (by decide) (by decide)
  have hpubcomp : Step false 2 (answeredPubrec.release 0) (.pubcomp 0 [0, 1]) _ :=
    .pubcomp (by decide) (by decide) ⟨[], rfl, fun _ => rfl, by decide⟩
  have hread : Step false 2 _ (.read [0x70, 2, 0, 1]) completedPubcomp :=
    .read rfl (by decide) (by decide) (by decide)
  have hreach : Reachable Start (Step false 2) completedPubcomp :=
    .next (.next (.next (.next (.next (reachable_published false 2) hpubrec) hanswer) hpubrel)
      hpubcomp) hread
  exact (sourceReader_faithful_iff false 2 completedPubcomp hreach).1.2 (by decide)

end Peer
