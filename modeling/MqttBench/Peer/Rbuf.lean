import MqttBench.Lib.Framing
import MqttBench.Peer.Varint

/-!
# The peer's read buffer

`struct rbuf`, `rbuf_fill` and `next_packet` of `mqtt_peer.c`: one `recv()` fills a
buffer from which every complete packet is handed out before the next `recv()`.

* `Rbuf` — the buffer with its bounds as fields: `start ≤ end ≤ cap` and a memory of
  `cap` bytes.  The functions below build it, so each of them keeps the bounds.
* `nextPacket_spec` — `next_packet` is `parse` on the unread bytes.
* `parse_incremental`, `parse_frames` — `parse` is an incremental parser that reads
  back what `put_varint` framed, which is all `Framing` asks for.
* `receive_spec` — **the framing is exact**: whatever the segmentation, the packets
  handed out are the packets sent, in order.
* `receive_cap_le` — the capacity stays below twice the largest packet.
-/

namespace Peer

open Base128 Framing

/-! ## The buffer -/

/-- `struct rbuf`.  `p` is the allocated memory; the unread bytes are those from
`start` to `stop` (the source's `end`). -/
structure Rbuf where
  /-- The allocated memory. -/
  p : List UInt8
  /-- Where the unread bytes begin. -/
  start : ℕ
  /-- Where they end. -/
  stop : ℕ
  /-- How much is allocated. -/
  cap : ℕ
  start_le : start ≤ stop
  stop_le : stop ≤ cap
  length_p : p.length = cap
  cap_pos : 0 < cap

namespace Rbuf

/-- `{.p = malloc(cap), .cap = cap}`. -/
def init (cap : ℕ) (h : 0 < cap) : Rbuf where
  p := List.replicate cap 0
  start := 0
  stop := 0
  cap := cap
  start_le := le_refl _
  stop_le := Nat.zero_le _
  length_p := List.length_replicate
  cap_pos := h

/-- The bytes received and not yet handed out. -/
def unread (b : Rbuf) : List UInt8 := (b.p.drop b.start).take (b.stop - b.start)

/-- The free space behind the received bytes. -/
def room (b : Rbuf) : ℕ := b.cap - b.stop

theorem length_unread (b : Rbuf) : b.unread.length = b.stop - b.start := by
  have h1 := b.stop_le
  have h2 := b.length_p
  rw [unread, List.length_take, List.length_drop]
  omega

@[simp] theorem unread_init (cap : ℕ) (h : 0 < cap) : (init cap h).unread = [] := by
  simp [unread, init]

/-- `realloc` to a larger capacity: the new bytes are not initialised. -/
def realloc (b : Rbuf) (cap : ℕ) (h : b.cap ≤ cap) : Rbuf where
  p := b.p ++ List.replicate (cap - b.cap) 0
  start := b.start
  stop := b.stop
  cap := cap
  start_le := b.start_le
  stop_le := b.stop_le.trans h
  length_p := by rw [List.length_append, List.length_replicate, b.length_p]; omega
  cap_pos := b.cap_pos.trans_le h

@[simp] theorem unread_realloc (b : Rbuf) (cap : ℕ) (h : b.cap ≤ cap) :
    (b.realloc cap h).unread = b.unread := by
  have h1 := b.stop_le
  have h2 := b.start_le
  have h3 := b.length_p
  simp only [unread, realloc]
  rw [List.drop_append_of_le_length (by omega), List.take_append_of_le_length]
  rw [List.length_drop]
  omega

/-- `memmove(b->p, b->p + b->start, b->end - b->start)` and the two updates that go
with it; nothing when the unread bytes are already at the front. -/
def compact (b : Rbuf) : Rbuf :=
  if 0 < b.start then
    { p := b.unread ++ b.p.drop (b.stop - b.start)
      start := 0
      stop := b.stop - b.start
      cap := b.cap
      start_le := Nat.zero_le _
      stop_le := (Nat.sub_le _ _).trans b.stop_le
      length_p := by
        have h1 := b.stop_le
        have h2 := b.length_p
        rw [List.length_append, length_unread, List.length_drop]
        omega
      cap_pos := b.cap_pos }
  else b

@[simp] theorem unread_compact (b : Rbuf) : b.compact.unread = b.unread := by
  rw [compact]
  split
  · have hlen := b.length_unread
    simp only [unread, List.drop_zero, Nat.sub_zero] at hlen ⊢
    rw [List.take_append_of_le_length (by omega), List.take_of_length_le (by omega)]
  · rfl

@[simp] theorem cap_compact (b : Rbuf) : b.compact.cap = b.cap := by
  rw [compact]; split <;> rfl

theorem stop_compact (b : Rbuf) : b.compact.stop = b.unread.length := by
  rw [length_unread, compact]
  split
  · rfl
  · omega

/-- `if (b->end == b->cap)` the capacity is doubled. -/
def grow (b : Rbuf) : Rbuf :=
  if b.stop = b.cap then b.realloc (b.cap * 2) (by omega) else b

@[simp] theorem unread_grow (b : Rbuf) : b.grow.unread = b.unread := by
  rw [grow]; split <;> simp

/-- What `rbuf_fill` does before it polls. -/
def prepare (b : Rbuf) : Rbuf := b.compact.grow

@[simp] theorem unread_prepare (b : Rbuf) : b.prepare.unread = b.unread := by
  simp [prepare]

/-- **`recv()` is never offered an empty buffer.** -/
theorem room_prepare_pos (b : Rbuf) : 0 < b.prepare.room := by
  have h1 := b.compact.stop_le
  have h2 := b.compact.cap_pos
  rw [prepare, room, grow]
  split
  · simp only [realloc]; omega
  · omega

/-- `recv(g_fd, b->p + b->end, b->cap - b->end, 0)` copies what fits. -/
def recv (b : Rbuf) (chunk : List UInt8) : Rbuf where
  p := b.p.take b.stop ++ chunk.take b.room ++ b.p.drop (b.stop + (chunk.take b.room).length)
  start := b.start
  stop := b.stop + (chunk.take b.room).length
  cap := b.cap
  start_le := b.start_le.trans (Nat.le_add_right _ _)
  stop_le := by
    have h1 := b.stop_le
    rw [List.length_take, room]
    omega
  length_p := by
    have h1 := b.stop_le
    have h2 := b.length_p
    simp only [List.length_append, List.length_take, List.length_drop, room]
    omega
  cap_pos := b.cap_pos

theorem unread_recv (b : Rbuf) {chunk : List UInt8} (h : chunk.length ≤ b.room) :
    (b.recv chunk).unread = b.unread ++ chunk := by
  have h1 := b.stop_le
  have h2 := b.start_le
  have h3 := b.length_p
  have htake : chunk.take b.room = chunk := List.take_of_length_le h
  have hlen : (b.p.take b.stop).length = b.stop := by rw [List.length_take]; omega
  simp only [unread, recv, htake]
  rw [List.append_assoc, List.drop_append_of_le_length (by omega), List.drop_take,
    ← List.append_assoc,
    List.take_left' (by rw [List.length_append, List.length_take, List.length_drop]; omega)]

/-- `while (b->cap < need) b->cap *= 2;`: from a positive capacity, at most `need`
doublings. -/
def doubleUntil (need : ℕ) : ℕ → ℕ → ℕ
  | 0, cap => cap
  | fuel + 1, cap => if cap < need then doubleUntil need fuel (cap * 2) else cap

theorem le_doubleUntil (need fuel cap : ℕ) : cap ≤ doubleUntil need fuel cap := by
  induction fuel generalizing cap with
  | zero => exact le_refl _
  | succ fuel ih =>
    rw [doubleUntil]
    split
    · exact le_trans (by omega) (ih (cap * 2))
    · exact le_refl _

theorem need_le_doubleUntil (need fuel cap : ℕ) (h : 0 < cap) (hf : need ≤ cap + fuel) :
    need ≤ doubleUntil need fuel cap := by
  induction fuel generalizing cap with
  | zero => simpa [doubleUntil] using hf
  | succ fuel ih =>
    rw [doubleUntil]
    split
    · exact ih (cap * 2) (by omega) (by omega)
    · omega

theorem doubleUntil_le (need fuel cap : ℕ) : doubleUntil need fuel cap ≤ max cap (2 * need) := by
  induction fuel generalizing cap with
  | zero => exact le_max_left _ _
  | succ fuel ih =>
    rw [doubleUntil]
    split
    · have := ih (cap * 2)
      omega
    · exact le_max_left _ _

/-- The reallocation of an incomplete packet: room for `need` bytes. -/
def reserve (b : Rbuf) (need : ℕ) : Rbuf :=
  b.realloc (doubleUntil need need b.cap) (le_doubleUntil _ _ _)

@[simp] theorem unread_reserve (b : Rbuf) (need : ℕ) : (b.reserve need).unread = b.unread :=
  unread_realloc _ _ _

theorem need_le_cap_reserve (b : Rbuf) (need : ℕ) : need ≤ (b.reserve need).cap :=
  need_le_doubleUntil _ _ _ b.cap_pos (Nat.le_add_left _ _)

/-- `b->start += n`. -/
def advance (b : Rbuf) (n : ℕ) (h : n ≤ b.stop - b.start) : Rbuf where
  p := b.p
  start := b.start + n
  stop := b.stop
  cap := b.cap
  start_le := by have := b.start_le; omega
  stop_le := b.stop_le
  length_p := b.length_p
  cap_pos := b.cap_pos

theorem unread_advance (b : Rbuf) (n : ℕ) (h : n ≤ b.stop - b.start) :
    (b.advance n h).unread = b.unread.drop n := by
  simp only [unread, advance]
  rw [List.drop_take, List.drop_drop, Nat.sub_sub]

end Rbuf

/-! ## Filling it -/

/-- What `poll()` and `recv()` report in one `rbuf_fill`. -/
inductive Ready
  /-- `poll()` timed out. -/
  | timeout
  /-- `poll()` failed, interrupted or not. -/
  | pollFailed (eintr : Bool)
  /-- `recv()` failed, for the moment or for good. -/
  | recvFailed (again : Bool)
  /-- `recv()` returned bytes; none when the broker closed the connection. -/
  | data (chunk : List UInt8)

/-- `rbuf_fill(b, timeout_ms)`: the buffer and the return value. -/
def rbufFill (b : Rbuf) : Ready → Rbuf × ℤ
  | .timeout => (b.prepare, 0)
  | .pollFailed eintr => (b.prepare, if eintr then 0 else -1)
  | .recvFailed again => (b.prepare, if again then 0 else -1)
  | .data chunk =>
    if chunk.take b.prepare.room = [] then (b.prepare, -1)
    else (b.prepare.recv chunk, (chunk.take b.prepare.room).length)

theorem rbufFill_data (b : Rbuf) {chunk : List UInt8} (hne : chunk ≠ [])
    (hfit : chunk.length ≤ b.prepare.room) :
    rbufFill b (.data chunk) = (b.prepare.recv chunk, (chunk.length : ℤ)) := by
  rw [rbufFill, List.take_of_length_le hfit, if_neg hne]

/-! ## Splitting off a packet -/

/-- Where the length loop of `next_packet` ends. -/
inductive LengthScan
  /-- `return 0`: the length is not complete. -/
  | more
  /-- `return -1`: a fourth length byte asks for another one. -/
  | malformed
  /-- `break`: the index behind the length, and the value. -/
  | done (i value : ℕ)
  deriving DecidableEq

/-- The `for (;;)` of `next_packet`; `bytes` are those from `p[i]` to the end of the
received data. -/
def scanLength : List UInt8 → ℕ → ℕ → ℕ → LengthScan
  | [], _, _, _ => .more
  | byte :: bytes, i, value, mul =>
    if byte &&& 0x80 = 0 then .done (i + 1) (value + (byte &&& 0x7f).toNat * mul)
    else if 4 < i + 1 then .malformed
    else scanLength bytes (i + 1) (value + (byte &&& 0x7f).toNat * mul) (mul * 128)

/-- A packet as `next_packet` hands it out: `body` points into the buffer, so the
memory behind the packet is in reach of whoever reads past `len`. -/
structure Packet where
  hdr : UInt8
  /-- The memory from the body pointer on. -/
  mem : List UInt8
  len : ℕ
  len_le : len ≤ mem.length

/-- The packet's own bytes. -/
def Packet.body (pk : Packet) : List UInt8 := pk.mem.take pk.len

/-- The return value of `next_packet`, with the packet when it is 1. -/
inductive Got
  /-- 1. -/
  | packet (pk : Packet)
  /-- 0. -/
  | more
  /-- -1. -/
  | malformed

/-- `next_packet(b, &hdr, &body, &len)`. -/
def nextPacket (b : Rbuf) : Rbuf × Got :=
  if b.stop - b.start < 2 then (b, .more)
  else
    match scanLength b.unread.tail 1 0 1 with
    | .more => (b, .more)
    | .malformed => (b, .malformed)
    | .done i value =>
      if h : b.stop - b.start < i + value then (b.reserve (i + value), .more)
      else
        (b.advance (i + value) (not_lt.1 h),
          .packet
            { hdr := (b.p.drop b.start).headD 0
              mem := b.p.drop (b.start + i)
              len := value
              len_le := by
                have h1 := b.stop_le
                have h2 := b.length_p
                rw [List.length_drop]
                omega })

/-! ## `next_packet` as a parser of the unread bytes -/

theorem scanLength_codes {bs : List UInt8} {v : ℕ} (h : Codes bs v) (rest : List UInt8)
    (i value mul : ℕ) (h4 : i + bs.length ≤ 5) :
    scanLength (bs ++ rest) i value mul = .done (i + bs.length) (value + v * mul) := by
  induction h generalizing i value mul with
  | @last b hb =>
    rw [List.singleton_append, scanLength, if_pos ((and_0x80_eq_zero b).2 hb), toNat_and_0x7f,
      Nat.mod_eq_of_lt hb, List.length_singleton]
  | @more b bs v hb _ ih =>
    have hcont : ¬ b &&& 0x80 = 0 := by rw [and_0x80_eq_zero]; omega
    simp only [List.length_cons] at h4
    have hlen : 0 < bs.length := by assumption |> Codes.length_pos
    rw [List.cons_append, scanLength, if_neg hcont, if_neg (by omega), ih _ _ _ (by omega),
      toNat_and_0x7f, List.length_cons, LengthScan.done.injEq]
    exact ⟨by omega, by ring⟩

theorem scanLength_more (xs : List UInt8) (i value mul : ℕ) (hc : Continues xs)
    (h4 : i + xs.length ≤ 4) : scanLength xs i value mul = .more := by
  induction xs generalizing i value mul with
  | nil => rfl
  | cons b xs ih =>
    obtain ⟨hb, hrest⟩ := List.forall_mem_cons.1 hc
    have hcont : ¬ b &&& 0x80 = 0 := by rw [and_0x80_eq_zero]; omega
    simp only [List.length_cons] at h4
    rw [scanLength, if_neg hcont, if_neg (by omega), ih _ _ _ hrest (by omega)]

theorem scanLength_malformed (xs : List UInt8) (i value mul : ℕ) (hi : i ≤ 4)
    (hc : Continues (xs.take (5 - i))) (h4 : 5 ≤ i + xs.length) :
    scanLength xs i value mul = .malformed := by
  induction xs generalizing i value mul with
  | nil => simp at h4; omega
  | cons b xs ih =>
    obtain ⟨m, hm⟩ : ∃ m, 5 - i = m + 1 := ⟨_, (Nat.sub_add_cancel (by omega)).symm⟩
    rw [hm, List.take_succ_cons] at hc
    obtain ⟨hb, hrest⟩ := List.forall_mem_cons.1 hc
    have hcont : ¬ b &&& 0x80 = 0 := by rw [and_0x80_eq_zero]; omega
    simp only [List.length_cons] at h4
    rw [scanLength, if_neg hcont]
    split
    · rfl
    · exact ih _ _ _ (by omega) (by rwa [show 5 - (i + 1) = m by omega]) (by omega)

theorem scanLength_done (xs : List UInt8) {i value mul i' v : ℕ} (hi : i ≤ 4)
    (h : scanLength xs i value mul = .done i' v) : i < i' ∧ i' ≤ 5 := by
  induction xs generalizing i value mul with
  | nil => cases h
  | cons b xs ih =>
    rw [scanLength] at h
    split at h
    · simp only [LengthScan.done.injEq] at h
      omega
    · split at h
      · cases h
      · have := ih (by omega) h
        omega

/-- What `next_packet` makes of the unread bytes, the buffer aside. -/
def parse (xs : List UInt8) : Answer UInt8 (UInt8 × List UInt8) :=
  match scanLength xs.tail 1 0 1 with
  | .more => .more
  | .malformed => .bad
  | .done i value =>
    if xs.length < i + value then .more
    else .item (xs.headD 0, (xs.drop i).take value) (xs.drop (i + value))

/-- Behind a complete length, a packet is there when its body is. -/
theorem parse_codes (hdr : UInt8) {bs : List UInt8} {v : ℕ} (hv : Codes bs v) (h4 : bs.length ≤ 4)
    (tail : List UInt8) :
    parse (hdr :: (bs ++ tail)) =
      if tail.length < v then .more else .item (hdr, tail.take v) (tail.drop v) := by
  have hdrop : ∀ n, (hdr :: (bs ++ tail)).drop (1 + bs.length + n) = tail.drop n := by
    intro n
    rw [show 1 + bs.length + n = (bs.length + n) + 1 by omega, List.drop_succ_cons,
      List.drop_append, List.drop_eq_nil_of_le (by omega), List.nil_append,
      Nat.add_sub_cancel_left]
  rw [parse, List.tail_cons, scanLength_codes hv tail 1 0 1 (by omega)]
  simp only [Nat.zero_add, Nat.mul_one, List.headD_cons, hdrop]
  rw [← Nat.add_zero (1 + bs.length), hdrop, List.drop_zero]
  simp only [List.length_cons, List.length_append]
  by_cases h : tail.length < v
  · rw [if_pos h, if_pos (by omega)]
  · rw [if_neg h, if_neg (by omega)]

/-- The three ends of the length loop, in terms of the bytes alone. -/
theorem parse_cases (hdr : UInt8) (rest : List UInt8) :
    (∃ bs tail v, rest = bs ++ tail ∧ Codes bs v ∧ bs.length ≤ 4 ∧
        parse (hdr :: rest) =
          if tail.length < v then .more else .item (hdr, tail.take v) (tail.drop v)) ∨
      (rest.length < 4 ∧ Continues rest ∧ parse (hdr :: rest) = .more) ∨
      (4 ≤ rest.length ∧ Continues (rest.take 4) ∧ parse (hdr :: rest) = .bad) := by
  rcases codes_trichotomy 4 rest with ⟨bs, tail, v, rfl, hv, h4⟩ | ⟨hl, hc⟩ | ⟨hl, hc⟩
  · exact Or.inl ⟨bs, tail, v, rfl, hv, h4, parse_codes hdr hv h4 tail⟩
  · exact Or.inr (Or.inl ⟨hl, hc, by
      rw [parse, List.tail_cons, scanLength_more rest 1 0 1 hc (by omega)]⟩)
  · exact Or.inr (Or.inr ⟨hl, hc, by
      rw [parse, List.tail_cons, scanLength_malformed rest 1 0 1 (by omega) hc (by omega)]⟩)

@[simp] theorem parse_nil : parse [] = .more := rfl


/-- `next_packet` is `parse` on the unread bytes: the answer is the same, and a packet
is taken from the front of the buffer. -/
theorem nextPacket_spec (b : Rbuf) :
    match nextPacket b with
    | (b', .more) => parse b.unread = .more ∧ b'.unread = b.unread
    | (b', .malformed) => parse b.unread = .bad ∧ b' = b
    | (b', .packet pk) => parse b.unread = .item (pk.hdr, pk.body) b'.unread := by
  have hlen := b.length_unread
  rw [nextPacket]
  by_cases h2 : b.stop - b.start < 2
  · rw [if_pos h2]
    refine ⟨?_, rfl⟩
    match hu : b.unread with
    | [] => rfl
    | [x] => rfl
    | x :: y :: xs => rw [hu] at hlen; simp at hlen; omega
  · rw [if_neg h2, parse]
    cases hs : scanLength b.unread.tail 1 0 1 with
    | more => exact ⟨rfl, rfl⟩
    | malformed => exact ⟨rfl, rfl⟩
    | done i value =>
      by_cases h : b.stop - b.start < i + value
      · simp only [dif_pos h]
        rw [if_pos (by omega)]
        exact ⟨rfl, b.unread_reserve _⟩
      · simp only [dif_neg h]
        rw [if_neg (by omega), Rbuf.unread_advance]
        have hhead : b.unread.headD 0 = (b.p.drop b.start).headD 0 := by
          rw [Rbuf.unread]
          obtain ⟨n, hn⟩ : ∃ n, b.stop - b.start = n + 1 := ⟨b.stop - b.start - 1, by omega⟩
          rw [hn]
          cases b.p.drop b.start <;> rfl
        have hbody : (b.unread.drop i).take value = (b.p.drop (b.start + i)).take value := by
          rw [Rbuf.unread, List.drop_take, List.drop_drop, List.take_take, min_eq_left (by omega)]
        rw [hhead, hbody]
        rfl

/-- **`next_packet` returns -1 exactly when four length bytes in a row carry the
continuation bit.** -/
theorem nextPacket_malformed_iff (b : Rbuf) :
    (nextPacket b).2 = .malformed ↔
      4 ≤ b.unread.tail.length ∧ Continues (b.unread.tail.take 4) := by
  have hspec := nextPacket_spec b
  have hcases : (nextPacket b).2 = .malformed ↔ parse b.unread = .bad := by
    revert hspec
    generalize nextPacket b = r
    obtain ⟨b', pk | - | -⟩ := r
    all_goals intro hspec; simp_all
  rw [hcases]
  cases hu : b.unread with
  | nil => simp
  | cons hdr rest =>
    rw [List.tail_cons]
    rcases parse_cases hdr rest with ⟨bs, tail, v, rfl, hv, h4, hp⟩ | ⟨hl, -, hp⟩ | ⟨hl, hc, hp⟩
    · rw [hp]
      refine iff_of_false (by split <;> simp) fun h => ?_
      have := hv.length_of_continues h.2
      omega
    · rw [hp]
      exact iff_of_false (by simp) fun h => by omega
    · rw [hp]
      exact iff_of_true rfl ⟨hl, hc⟩

/-! ## The parser is incremental and reads back what is framed -/

/-- A packet that was parsed is a header byte, a spelled length and so many bytes. -/
theorem parse_eq_item {xs rest : List UInt8} {b : UInt8 × List UInt8}
    (h : parse xs = .item b rest) : ∃ hdr bs tail v, xs = hdr :: (bs ++ tail) ∧ Codes bs v ∧
      bs.length ≤ 4 ∧ v ≤ tail.length ∧ b = (hdr, tail.take v) ∧ rest = tail.drop v := by
  cases xs with
  | nil => cases h
  | cons hdr xs =>
    rcases parse_cases hdr xs with ⟨bs, tail, v, rfl, hv, h4, hp⟩ | ⟨-, -, hp⟩ | ⟨-, -, hp⟩
    · rw [hp] at h
      split at h
      · cases h
      · next hlt =>
        cases h
        exact ⟨hdr, bs, tail, v, rfl, hv, h4, not_lt.1 hlt, rfl, rfl⟩
    · rw [hp] at h; cases h
    · rw [hp] at h; cases h

theorem parse_incremental : Incremental parse where
  item_append := by
    intro xs b rest h ys
    obtain ⟨hdr, bs, tail, v, rfl, hv, h4, hle, rfl, rfl⟩ := parse_eq_item h
    have hp := parse_codes hdr hv h4 (tail ++ ys)
    rw [List.length_append, if_neg (by omega), List.take_append_of_le_length hle,
      List.drop_append_of_le_length hle] at hp
    simpa using hp
  item_lt := by
    intro xs b rest h
    obtain ⟨hdr, bs, tail, v, rfl, -, -, -, -, rfl⟩ := parse_eq_item h
    simp only [List.length_drop, List.length_cons, List.length_append]
    omega
  bad_append := by
    intro xs h ys
    cases xs with
    | nil => cases h
    | cons hdr xs =>
      rcases parse_cases hdr xs with ⟨bs, tail, v, rfl, hv, h4, hp⟩ | ⟨-, -, hp⟩ | ⟨hl, hc, -⟩
      · rw [hp] at h
        split at h <;> cases h
      · rw [hp] at h; cases h
      · rw [parse, List.cons_append, List.tail_cons,
          scanLength_malformed (xs ++ ys) 1 0 1 (by omega)
            (by rwa [List.take_append_of_le_length (by omega)])
            (by rw [List.length_append]; omega)]

/-- A packet on the wire: header byte, remaining length, body. -/
def packetBytes (pk : UInt8 × List UInt8) : List UInt8 := pk.1 :: (putVarint pk.2.length ++ pk.2)

/-- The largest remaining length MQTT knows. -/
def maxRemaining : ℕ := 268435455

/-- What `put_varint` framed is read back. -/
theorem parse_frames {pk : UInt8 × List UInt8} (h : pk.2.length ≤ maxRemaining) :
    Frames parse packetBytes pk := by
  intro ys
  rw [maxRemaining] at h
  rw [packetBytes, List.cons_append, List.append_assoc,
    parse_codes pk.1 (codes_putVarint (by omega)) (length_putVarint (by omega)),
    if_neg (by simp)]
  simp

/-- Only such a packet is: a length has four bytes at most. -/
theorem length_of_frames {pk : UInt8 × List UInt8} (h : Frames parse packetBytes pk) :
    pk.2.length ≤ maxRemaining := by
  obtain ⟨hdr, bs, tail, v, -, hv, h4, -, hpk, -⟩ := parse_eq_item (h [])
  have hlt := hv.lt_pow
  have hpow : 128 ^ bs.length ≤ 128 ^ 4 := Nat.pow_le_pow_right (by decide) h4
  rw [hpk, maxRemaining, List.length_take]
  omega

/-! ## Handing out every packet -/

/-- `while (next_packet(...) == 1)` with the loop body as a fold: the buffer, the
state of the body, and the return value that ended the loop.  Every packet takes at
least a byte, so the unread length is fuel enough. -/
def drainLoop {σ : Type*} (handle : σ → Packet → σ) : ℕ → Rbuf → σ → Rbuf × σ × ℤ
  | 0, b, s => (b, s, 0)
  | fuel + 1, b, s =>
    match nextPacket b with
    | (b', .packet pk) => drainLoop handle fuel b' (handle s pk)
    | (b', .more) => (b', s, 0)
    | (b', .malformed) => (b', s, -1)

/-- The packet loop after one `rbuf_fill`. -/
def drain {σ : Type*} (handle : σ → Packet → σ) (b : Rbuf) (s : σ) : Rbuf × σ × ℤ :=
  drainLoop handle (b.unread.length + 1) b s

/-- A packet's header and bytes. -/
def Packet.view (pk : Packet) : UInt8 × List UInt8 := (pk.hdr, pk.body)

theorem drainLoop_of_drains {σ : Type*} (handle : σ → Packet → σ) {b : Rbuf}
    {items : List (UInt8 × List UInt8)} {left : List UInt8} (h : Drains parse b.unread items left)
    (fuel : ℕ) (hf : b.unread.length < fuel) (s : σ) :
    ∃ (b' : Rbuf) (pks : List Packet), drainLoop handle fuel b s = (b', pks.foldl handle s, 0) ∧
      b'.unread = left ∧ pks.map Packet.view = items := by
  induction fuel generalizing b items s with
  | zero => omega
  | succ fuel ih =>
    have hspec := nextPacket_spec b
    rw [drainLoop]
    revert hspec
    generalize nextPacket b = r
    obtain ⟨b', pk | - | -⟩ := r <;> intro hspec
    · simp only at hspec ⊢
      cases h with
      | stop hm => rw [hspec] at hm; cases hm
      | item hi hd =>
        rw [hspec] at hi
        cases hi
        have hlt := parse_incremental.item_lt hspec
        obtain ⟨b'', pks, hrun, hleft, hview⟩ := ih hd (by omega) (handle s pk)
        exact ⟨b'', pk :: pks, hrun, hleft, by rw [List.map_cons, hview]; rfl⟩
    · simp only at hspec ⊢
      cases h with
      | stop hm => exact ⟨b', [], rfl, hspec.2, rfl⟩
      | item hi _ => rw [hspec.1] at hi; cases hi
    · simp only at hspec ⊢
      cases h with
      | stop hm => rw [hspec.1] at hm; cases hm
      | item hi _ => rw [hspec.1] at hi; cases hi

/-- When the unread bytes drain, the packet loop handles exactly their packets, in
order, and ends with 0. -/
theorem drain_of_drains {σ : Type*} (handle : σ → Packet → σ) {b : Rbuf}
    {items : List (UInt8 × List UInt8)} {left : List UInt8} (h : Drains parse b.unread items left)
    (s : σ) :
    ∃ (b' : Rbuf) (pks : List Packet), drain handle b s = (b', pks.foldl handle s, 0) ∧
      b'.unread = left ∧ pks.map Packet.view = items :=
  drainLoop_of_drains handle h _ (Nat.lt_succ_self _) s

/-- Where the loop leaves the buffer does not depend on what its body does. -/
theorem drainLoop_fst {σ τ : Type*} (handle : σ → Packet → σ) (handle' : τ → Packet → τ)
    (fuel : ℕ) (b : Rbuf) (s : σ) (t : τ) :
    (drainLoop handle fuel b s).1 = (drainLoop handle' fuel b t).1 := by
  induction fuel generalizing b s t with
  | zero => rfl
  | succ fuel ih =>
    rw [drainLoop, drainLoop]
    generalize nextPacket b = r
    obtain ⟨b', pk | - | -⟩ := r
    · exact ih _ _ _
    · rfl
    · rfl

/-! ## A whole reception -/

/-- Alternate `rbuf_fill` and the packet loop, one `recv()` chunk at a time, until
`next_packet` returns -1. -/
def receive {σ : Type*} (handle : σ → Packet → σ) (b : Rbuf) (s : σ) :
    List (List UInt8) → Rbuf × σ × ℤ
  | [] => (b, s, 0)
  | chunk :: chunks =>
    let (b', s', got) := drain handle (rbufFill b (.data chunk)).1 s
    if got < 0 then (b', s', got) else receive handle b' s' chunks

/-- The buffer when the next chunk arrives. -/
def afterChunk (b : Rbuf) (chunk : List UInt8) : Rbuf :=
  (drain (fun (_ : Unit) _ => ()) (rbufFill b (.data chunk)).1 ()).1

/-- Chunks as `recv()` can return them: none empty, each within the free space that
`rbuf_fill` offers at that moment. -/
def Fits (b : Rbuf) : List (List UInt8) → Prop
  | [] => True
  | chunk :: chunks =>
    chunk ≠ [] ∧ chunk.length ≤ b.prepare.room ∧ Fits (afterChunk b chunk) chunks

/-- Whether the chunks fit can be computed. -/
def Fits.decide : (b : Rbuf) → (chunks : List (List UInt8)) → Decidable (Fits b chunks)
  | _, [] => isTrue trivial
  | b, chunk :: chunks =>
    have := Fits.decide (afterChunk b chunk) chunks
    inferInstanceAs (Decidable (chunk ≠ [] ∧ chunk.length ≤ b.prepare.room ∧
      Fits (afterChunk b chunk) chunks))

instance (b : Rbuf) (chunks : List (List UInt8)) : Decidable (Fits b chunks) :=
  Fits.decide b chunks

theorem Fits.take {b : Rbuf} {chunks : List (List UInt8)} (h : Fits b chunks) (n : ℕ) :
    Fits b (chunks.take n) := by
  induction chunks generalizing b n with
  | nil => rw [List.take_nil]; exact h
  | cons chunk chunks ih =>
    match n with
    | 0 => exact trivial
    | n + 1 => exact ⟨h.1, h.2.1, ih h.2.2 n⟩

/-- **One `recv()` and the packet loop after it.**  Let the bytes held, those received
now and some still to come be a stream of framed packets.  Then the packets handled are
the first ones of that stream, and the bytes held are the beginning of the rest. -/
theorem drain_rbufFill {σ : Type*} (handle : σ → Packet → σ) {b : Rbuf} {chunk : List UInt8}
    (hne : chunk ≠ []) (hroom : chunk.length ≤ b.prepare.room)
    {items : List (UInt8 × List UInt8)} (hlen : ∀ pk ∈ items, pk.2.length ≤ maxRemaining)
    {ys : List UInt8} (hs : b.unread ++ chunk ++ ys = items.flatMap packetBytes) (s : σ) :
    ∃ (b' : Rbuf) (pks : List Packet) (rest : List (UInt8 × List UInt8)),
      drain handle (rbufFill b (.data chunk)).1 s = (b', pks.foldl handle s, 0) ∧
      items = pks.map Packet.view ++ rest ∧ b'.unread ++ ys = rest.flatMap packetBytes ∧
      b.unread ++ chunk = (pks.map Packet.view).flatMap packetBytes ++ b'.unread ∧
      parse b'.unread = .more ∧ afterChunk b chunk = b' := by
  have hunread : (rbufFill b (.data chunk)).1.unread = b.unread ++ chunk := by
    rw [rbufFill_data b hne hroom, Rbuf.unread_recv _ hroom, Rbuf.unread_prepare]
  obtain ⟨cs, ds, left, rfl, hd, hleft, hread⟩ :=
    Drains.split parse_incremental parse_nil (fun pk hpk => parse_frames (hlen pk hpk)) hs
  have hmore := hd.next_left
  rw [← hunread] at hd
  obtain ⟨b', pks, hrun, rfl, rfl⟩ := drain_of_drains handle hd s
  refine ⟨b', pks, ds, hrun, rfl, hleft, hread, hmore, ?_⟩
  rw [afterChunk, drain, drainLoop_fst _ handle _ _ () s]
  exact congrArg Prod.fst hrun

/-- **The framing is exact, at every moment.**  Let the bytes received so far, and
some still to come, be a stream of framed packets.  Then the packets handled are the
first ones of that stream, the unread bytes are the beginning of the rest, and no
`next_packet` has returned -1. -/
theorem receive_spec {σ : Type*} (handle : σ → Packet → σ) {b : Rbuf}
    (hm : parse b.unread = .more) {chunks : List (List UInt8)} (hfit : Fits b chunks)
    {items : List (UInt8 × List UInt8)} (hlen : ∀ pk ∈ items, pk.2.length ≤ maxRemaining)
    {ys : List UInt8} (hs : b.unread ++ chunks.flatten ++ ys = items.flatMap packetBytes) (s : σ) :
    ∃ (b' : Rbuf) (pks : List Packet) (rest : List (UInt8 × List UInt8)),
      receive handle b s chunks = (b', pks.foldl handle s, 0) ∧
      items = pks.map Packet.view ++ rest ∧ b'.unread ++ ys = rest.flatMap packetBytes ∧
      b.unread ++ chunks.flatten = (pks.map Packet.view).flatMap packetBytes ++ b'.unread ∧
      parse b'.unread = .more := by
  induction chunks generalizing b items s with
  | nil => exact ⟨b, [], items, rfl, rfl, by simpa using hs, by simp, hm⟩
  | cons chunk chunks ih =>
    obtain ⟨hne, hroom, hrest⟩ := hfit
    have hcut : b.unread ++ chunk ++ (chunks.flatten ++ ys) = items.flatMap packetBytes := by
      rw [← hs, List.flatten_cons]
      simp only [List.append_assoc]
    obtain ⟨b₁, pks₁, ds, hrun, rfl, hleft, hread, hm₁, hafter⟩ :=
      drain_rbufFill handle hne hroom hlen hcut s
    rw [hafter] at hrest
    obtain ⟨b', pks, rest, hrec, hds, hys, hall, hmore⟩ :=
      ih hm₁ hrest (fun pk hpk => hlen pk (List.mem_append_right _ hpk))
        (by rw [List.append_assoc]; exact hleft) (pks₁.foldl handle s)
    refine ⟨b', pks₁ ++ pks, rest, ?_, ?_, hys, ?_, hmore⟩
    · rw [receive, hrun]
      simp only [lt_irrefl, if_false]
      rw [hrec, List.foldl_append]
    · rw [List.map_append, List.append_assoc, hds]
    · rw [List.map_append, List.flatMap_append, List.append_assoc, ← hall,
        List.flatten_cons, ← List.append_assoc, hread, List.append_assoc]

/-- When the whole stream has arrived, nothing is left over. -/
theorem eq_nil_of_more {xs : List UInt8} (hm : parse xs = .more)
    {rest : List (UInt8 × List UInt8)} (hlen : ∀ pk ∈ rest, pk.2.length ≤ maxRemaining)
    (hs : xs = rest.flatMap packetBytes) : rest = [] := by
  cases rest with
  | nil => rfl
  | cons pk rest =>
    rw [hs, List.flatMap_cons, parse_frames (hlen pk (by simp))] at hm
    cases hm

/-- The packets as they are handed out. -/
def collect (got : List (UInt8 × List UInt8)) (pk : Packet) : List (UInt8 × List UInt8) :=
  got ++ [pk.view]

theorem foldl_collect (pks : List Packet) (got : List (UInt8 × List UInt8)) :
    pks.foldl collect got = got ++ pks.map Packet.view := by
  induction pks generalizing got with
  | nil => simp
  | cons pk pks ih => rw [List.foldl_cons, ih, collect]; simp

/-- `next_packet` answers 0 where the parser wants more. -/
theorem nextPacket_more {b : Rbuf} (h : parse b.unread = .more) : (nextPacket b).2 = .more := by
  have hspec := nextPacket_spec b
  revert hspec
  generalize nextPacket b = r
  obtain ⟨b', pk | - | -⟩ := r <;> intro hspec <;> simp_all

/-- **No segmentation loses, invents or reorders a packet.**  Let a list of packets be
framed by `put_varint` and the byte stream cut into chunks that `recv()` can return.
Then the peer hands out exactly that list.  After any number of chunks it has handed
out the first packets of the list, holds the bytes that belong to none of them, answers
0 to a further `next_packet`, and offers `recv()` some free space; the buffer's bounds
hold in every buffer there is, and -1 means four continuation bits in a row. -/
theorem framing_exact (cap : ℕ) (hcap : 0 < cap) (pkts : List (UInt8 × List UInt8))
    (hlen : ∀ pk ∈ pkts, pk.2.length ≤ maxRemaining) (chunks : List (List UInt8))
    (hcut : chunks.flatten = pkts.flatMap packetBytes) (hfit : Fits (Rbuf.init cap hcap) chunks) :
    (∃ b, receive collect (Rbuf.init cap hcap) [] chunks = (b, pkts, 0) ∧ b.unread = []) ∧
      (∀ n, ∃ b got, receive collect (Rbuf.init cap hcap) [] (chunks.take n) = (b, got, 0) ∧
        got <+: pkts ∧ (chunks.take n).flatten = got.flatMap packetBytes ++ b.unread ∧
        (nextPacket b).2 = .more ∧ 0 < b.prepare.room) ∧
      ∀ b : Rbuf, b.start ≤ b.stop ∧ b.stop ≤ b.cap ∧
        ((nextPacket b).2 = .malformed ↔
          4 ≤ b.unread.tail.length ∧ Continues (b.unread.tail.take 4)) := by
  have hmore : parse (Rbuf.init cap hcap).unread = .more := by rw [Rbuf.unread_init, parse_nil]
  refine ⟨?_, fun n => ?_, fun b => ⟨b.start_le, b.stop_le, nextPacket_malformed_iff b⟩⟩
  · have hstream : (Rbuf.init cap hcap).unread ++ chunks.flatten ++ []
        = pkts.flatMap packetBytes := by simpa using hcut
    obtain ⟨b, pks, rest, hrec, hitems, hleft, -, hm⟩ :=
      receive_spec collect hmore hfit hlen hstream []
    rw [List.append_nil] at hleft
    obtain rfl : rest = [] :=
      eq_nil_of_more hm (fun pk hpk => hlen pk (by rw [hitems]; simp [hpk])) hleft
    refine ⟨b, ?_, by simpa using hleft⟩
    rw [hrec, foldl_collect, List.nil_append, hitems, List.append_nil]
  · have hstream : (Rbuf.init cap hcap).unread ++ (chunks.take n).flatten ++ (chunks.drop n).flatten
        = pkts.flatMap packetBytes := by
      rw [Rbuf.unread_init, List.nil_append, ← List.flatten_append, List.take_append_drop, hcut]
    obtain ⟨b, pks, rest, hrec, hitems, -, hread, hm⟩ :=
      receive_spec collect hmore (hfit.take n) hlen hstream []
    refine ⟨b, pks.map Packet.view, ?_, ?_, ?_, nextPacket_more hm, b.room_prepare_pos⟩
    · rw [hrec, foldl_collect, List.nil_append]
    · exact ⟨rest, hitems.symm⟩
    · simpa using hread

/-- A three-byte body and an empty one, cut inside a length and inside a body, in a
buffer too small for the first packet. -/
theorem framing_exact_example :
    ∃ b, receive collect (Rbuf.init 4 (by decide)) [] [[0x30], [3, 1], [2, 3, 0x40], [0]] =
      (b, [(0x30, [1, 2, 3]), (0x40, [])], 0) ∧ b.unread = [] :=
  (framing_exact 4 (by decide) [(0x30, [1, 2, 3]), (0x40, [])] (by decide)
    [[0x30], [3, 1], [2, 3, 0x40], [0]] (by decide) (by decide)).1

/-! ## How large the buffer gets -/

theorem scanLength_lt (xs : List UInt8) {i value mul i' v : ℕ} (hi : i ≤ 4) (hv : value < mul)
    (hm : mul * 128 ^ (5 - i) ≤ 2 ^ 28) (h : scanLength xs i value mul = .done i' v) :
    v < 2 ^ 28 := by
  induction xs generalizing i value mul with
  | nil => cases h
  | cons b xs ih =>
    have hpow : 1 ≤ 128 ^ (4 - i) := Nat.one_le_pow _ _ (by norm_num)
    have hmul : mul * 128 * 128 ^ (4 - i) ≤ 2 ^ 28 := by
      rw [show 5 - i = (4 - i) + 1 by omega, pow_succ] at hm
      linarith
    have hle : mul * 128 ≤ 2 ^ 28 := le_trans (Nat.le_mul_of_pos_right _ hpow) hmul
    have hdigit : (b &&& 0x7f).toNat * mul ≤ 127 * mul :=
      Nat.mul_le_mul_right _ (by rw [toNat_and_0x7f]; omega)
    rw [scanLength] at h
    split at h
    · simp only [LengthScan.done.injEq] at h
      omega
    · split at h
      · cases h
      · exact ih (by omega) (by omega) (by rwa [show 5 - (i + 1) = 4 - i by omega]) h

/-- A buffer from which every complete packet has been taken: there is room behind the
rest, and the capacity is bounded by the largest packet. -/
def Settled (M : ℕ) (b : Rbuf) : Prop := b.unread.length < b.cap ∧ 5 ≤ b.cap ∧ b.cap ≤ M

theorem Settled.cap_prepare {M : ℕ} {b : Rbuf} (h : Settled M b) : b.prepare.cap = b.cap := by
  rw [Rbuf.prepare, Rbuf.grow, if_neg, Rbuf.cap_compact]
  rw [Rbuf.stop_compact, Rbuf.cap_compact]
  exact h.1.ne

theorem nextPacket_cap {M : ℕ} (hM : 2 * (maxRemaining + 5) ≤ M) {b : Rbuf} (h5 : 5 ≤ b.cap)
    (hb : b.cap ≤ M) :
    match nextPacket b with
    | (b', .more) => Settled M b'
    | (b', _) => 5 ≤ b'.cap ∧ b'.cap ≤ M := by
  have hlen := b.length_unread
  rw [nextPacket]
  by_cases h2 : b.stop - b.start < 2
  · rw [if_pos h2]
    exact ⟨by omega, h5, hb⟩
  · rw [if_neg h2]
    cases hs : scanLength b.unread.tail 1 0 1 with
    | more =>
      refine ⟨?_, h5, hb⟩
      rcases codes_trichotomy 4 b.unread.tail with ⟨bs, tail, v, ht, hv, h4⟩ | ⟨hl, -⟩ | ⟨hl, hc⟩
      · rw [ht, scanLength_codes hv tail 1 0 1 (by omega)] at hs
        cases hs
      · rw [List.length_tail] at hl
        omega
      · rw [scanLength_malformed _ 1 0 1 (by omega) hc (by omega)] at hs
        cases hs
    | malformed => exact ⟨h5, hb⟩
    | done i value =>
      have hi := scanLength_done _ (by omega) hs
      have hv := scanLength_lt _ (by omega) (by omega) (by norm_num) hs
      rw [maxRemaining] at hM
      by_cases h : b.stop - b.start < i + value
      · simp only [dif_pos h]
        have hneed := b.need_le_cap_reserve (i + value)
        have hle : (b.reserve (i + value)).cap ≤ max b.cap (2 * (i + value)) :=
          Rbuf.doubleUntil_le _ _ _
        have hge : b.cap ≤ (b.reserve (i + value)).cap := Rbuf.le_doubleUntil _ _ _
        exact ⟨by rw [Rbuf.unread_reserve]; omega, by omega, by omega⟩
      · simp only [dif_neg h]
        exact ⟨h5, hb⟩

theorem drainLoop_cap {M : ℕ} (hM : 2 * (maxRemaining + 5) ≤ M) {σ : Type*}
    (handle : σ → Packet → σ) (fuel : ℕ) {b : Rbuf} (hf : b.unread.length < fuel) (h5 : 5 ≤ b.cap)
    (hb : b.cap ≤ M) (s : σ) :
    (drainLoop handle fuel b s).1.cap ≤ M ∧
      (¬ (drainLoop handle fuel b s).2.2 < 0 → Settled M (drainLoop handle fuel b s).1) := by
  induction fuel generalizing b s with
  | zero => omega
  | succ fuel ih =>
    have hcap := nextPacket_cap hM h5 hb
    have hspec := nextPacket_spec b
    rw [drainLoop]
    revert hcap hspec
    generalize nextPacket b = r
    obtain ⟨b', pk | - | -⟩ := r <;> intro hcap hspec
    · have hlt := parse_incremental.item_lt hspec
      exact ih (by omega) hcap.1 hcap.2 _
    · exact ⟨hcap.2.2, fun _ => hcap⟩
    · exact ⟨hcap.2, fun h => absurd (show (-1 : ℤ) < 0 by decide) h⟩

theorem drain_cap {M : ℕ} (hM : 2 * (maxRemaining + 5) ≤ M) {σ : Type*}
    (handle : σ → Packet → σ) {b : Rbuf} (h5 : 5 ≤ b.cap) (hb : b.cap ≤ M) (s : σ) :
    (drain handle b s).1.cap ≤ M ∧
      (¬ (drain handle b s).2.2 < 0 → Settled M (drain handle b s).1) :=
  drainLoop_cap hM handle _ (Nat.lt_succ_self _) h5 hb s

/-- **The capacity stays below twice the largest packet**, whatever bytes arrive: from
`main`'s mebibyte no doubling comes near the range of a `size_t`. -/
theorem receive_cap_le {M : ℕ} (hM : 2 * (maxRemaining + 5) ≤ M) {σ : Type*}
    (handle : σ → Packet → σ) {b : Rbuf} (hb : Settled M b) (s : σ) (chunks : List (List UInt8)) :
    (receive handle b s chunks).1.cap ≤ M := by
  induction chunks generalizing b s with
  | nil => exact hb.2.2
  | cons chunk chunks ih =>
    have hfill : (rbufFill b (.data chunk)).1.cap = b.cap := by
      rw [rbufFill]
      split
      · exact hb.cap_prepare
      · exact hb.cap_prepare
    obtain ⟨hcap, hset⟩ := drain_cap hM handle (b := (rbufFill b (.data chunk)).1)
      (by rw [hfill]; exact hb.2.1) (by rw [hfill]; exact hb.2.2) s
    rw [receive]
    by_cases hgot : (drain handle (rbufFill b (.data chunk)).1 s).2.2 < 0
    · simpa only [hgot, if_true] using hcap
    · simpa only [hgot, if_false] using ih (hset hgot) _

end Peer
