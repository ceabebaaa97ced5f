import MqttBench.Peer.Publish

/-!
# The peer's write buffer and its acknowledgements

`struct wbuf`, `put_ack`, `ack_pid` and `ack_failed` of `mqtt_peer.c`.

* `Wbuf.contents_put`, `Wbuf.flush_eq` — the buffer is the bytes put since the last flush.
* `ackPid_eq`, `ackFailed_eq` — an acknowledgement is read from its own bytes only.
-/

namespace Peer

/-! ## The buffer -/

/-- `struct wbuf`. -/
structure Wbuf where
  /-- The allocated memory. -/
  p : List UInt8
  len : ℕ
  cap : ℕ
  len_le : len ≤ cap
  length_p : p.length = cap

namespace Wbuf

/-- `{0}`. -/
def init : Wbuf := ⟨[], 0, 0, Nat.le_refl 0, rfl⟩

/-- The bytes that wait to be sent. -/
def contents (b : Wbuf) : List UInt8 := b.p.take b.len

theorem length_contents (b : Wbuf) : b.contents.length = b.len := by
  rw [contents, List.length_take, b.length_p, min_eq_left b.len_le]

/-- The capacity `wbuf_reserve` ends with. -/
def reserved (b : Wbuf) (extra : ℕ) : ℕ :=
  Rbuf.doubleUntil (b.len + extra) (b.len + extra) (if b.cap = 0 then 65536 else b.cap)

theorem cap_le_reserved (b : Wbuf) (extra : ℕ) : b.cap ≤ b.reserved extra := by
  refine le_trans ?_ (Rbuf.le_doubleUntil _ _ _)
  split <;> omega

theorem need_le_reserved (b : Wbuf) (extra : ℕ) : b.len + extra ≤ b.reserved extra :=
  Rbuf.need_le_doubleUntil _ _ _ (by split <;> omega) (Nat.le_add_left _ _)

/-- `wbuf_reserve(b, extra)`. -/
def reserve (b : Wbuf) (extra : ℕ) : Wbuf :=
  if b.len + extra ≤ b.cap then b
  else
    { p := b.p ++ List.replicate (b.reserved extra - b.cap) 0
      len := b.len
      cap := b.reserved extra
      len_le := b.len_le.trans (b.cap_le_reserved extra)
      length_p := by
        have := b.cap_le_reserved extra
        rw [List.length_append, List.length_replicate, b.length_p]
        omega }

theorem len_reserve (b : Wbuf) (extra : ℕ) : (b.reserve extra).len = b.len := by
  rw [reserve]; split <;> rfl

theorem room_reserve (b : Wbuf) (extra : ℕ) : b.len + extra ≤ (b.reserve extra).cap := by
  rw [reserve]
  split
  · assumption
  · exact b.need_le_reserved extra

theorem contents_reserve (b : Wbuf) (extra : ℕ) : (b.reserve extra).contents = b.contents := by
  rw [reserve]
  split
  · rfl
  · exact List.take_append_of_le_length (by rw [b.length_p]; exact b.len_le)

theorem len_add_le_reserve (b : Wbuf) (extra : ℕ) :
    (b.reserve extra).len + extra ≤ (b.reserve extra).cap := by
  rw [len_reserve]
  exact b.room_reserve extra

/-- `memcpy` behind the contents, into memory that is there. -/
def copy (b : Wbuf) (src : List UInt8) (h : b.len + src.length ≤ b.cap) : Wbuf where
  p := b.p.take b.len ++ src ++ b.p.drop (b.len + src.length)
  len := b.len + src.length
  cap := b.cap
  len_le := h
  length_p := by
    have hp := b.length_p
    simp only [List.length_append, List.length_take, List.length_drop]
    omega

/-- `wbuf_put(b, src, n)`. -/
def put (b : Wbuf) (src : List UInt8) : Wbuf :=
  (b.reserve src.length).copy src (b.len_add_le_reserve _)

/-- **Putting appends.** -/
@[simp] theorem contents_put (b : Wbuf) (src : List UInt8) :
    (b.put src).contents = b.contents ++ src := by
  have hlen := (b.reserve src.length).length_contents
  rw [← b.contents_reserve src.length]
  simp only [put, copy, contents] at hlen ⊢
  exact List.take_left' (by rw [List.length_append, hlen])

/-- `wbuf_flush(b, fd)`: the buffer, what went out on the socket, and the return value.
`cut` is where `send` failed for good, if it did. -/
def flush (b : Wbuf) (cut : Option ℕ) : Wbuf × List UInt8 × ℤ :=
  if b.len = 0 then (b, [], 0)
  else
    let empty : Wbuf := { b with len := 0, len_le := Nat.zero_le _ }
    match cut with
    | none => (empty, b.contents, 0)
    | some k => (empty, b.contents.take k, -1)

/-- **A flush that does not fail sends everything.** -/
theorem flush_eq (b : Wbuf) :
    ∃ b', b.flush none = (b', b.contents, 0) ∧ b'.contents = [] := by
  rw [flush]
  by_cases h : b.len = 0
  · have hc : b.contents = [] := List.length_eq_zero_iff.1 (by rw [length_contents, h])
    exact ⟨b, by rw [if_pos h, hc], hc⟩
  · exact ⟨_, by rw [if_neg h], rfl⟩

end Wbuf

/-! ## Acknowledgements -/

/-- The four bytes of an acknowledgement: success, no properties. -/
def ackBytes (type : UInt8) (pid : UInt16) : List UInt8 := type :: 0x02 :: put16 pid

/-- `put_ack(out, type, pid)`. -/
def putAck (out : Wbuf) (type : UInt8) (pid : UInt16) : Wbuf := out.put (ackBytes type pid)

@[simp] theorem contents_putAck (out : Wbuf) (type : UInt8) (pid : UInt16) :
    (putAck out type pid).contents = out.contents ++ ackBytes type pid := out.contents_put _

/-- `ack_pid(body, len)`. -/
def ackPid (body : List UInt8) (len : ℕ) : UInt16 :=
  if 2 ≤ len then read16 (body.getD 0 0) (body.getD 1 0) else 0

/-- `ack_failed(body, len)`. -/
def ackFailed (v5 : Bool) (body : List UInt8) (len : ℕ) : Bool :=
  v5 && decide (3 ≤ len) && decide (0x80 ≤ body.getD 2 0)

/-- The packet id of an acknowledgement; 0 stands for none. -/
def idOf (body : List UInt8) : UInt16 := ((readTwo body).map Prod.fst).getD 0

/-- The reason code of an acknowledgement says that it failed; only MQTT 5 has one. -/
def Refused (v5 : Bool) (body : List UInt8) : Prop :=
  v5 = true ∧ ∃ reason ∈ body[2]?, 0x80 ≤ reason

instance (v5 : Bool) (body : List UInt8) : Decidable (Refused v5 body) :=
  inferInstanceAs (Decidable (_ ∧ _))

theorem ackPid_eq {mem : List UInt8} {len : ℕ} (h : len ≤ mem.length) :
    ackPid mem len = idOf (mem.take len) := by
  rw [ackPid, idOf]
  by_cases h2 : 2 ≤ len
  · obtain ⟨n, rfl⟩ : ∃ n, len = n + 2 := ⟨len - 2, by omega⟩
    match mem, h with
    | hi :: lo :: mem, _ => rw [if_pos h2]; rfl
    | [_], h => simp at h
    | [], h => simp at h
  · rw [if_neg h2]
    match len, h2 with
    | 0, _ => rfl
    | 1, _ => cases mem <;> rfl
    | n + 2, h2 => omega

theorem ackFailed_eq {v5 : Bool} {mem : List UInt8} {len : ℕ} (h : len ≤ mem.length) :
    ackFailed v5 mem len = decide (Refused v5 (mem.take len)) := by
  rw [ackFailed, Bool.eq_iff_iff, decide_eq_true_iff, Refused]
  by_cases h3 : 3 ≤ len
  · have hget : mem[2]? = some (mem.getD 2 0) := by
      rw [List.getD_eq_getElem _ _ (by omega), List.getElem?_eq_getElem]
    rw [List.getElem?_take_of_lt (by omega), hget]
    simp [h3]
  · rw [List.getElem?_eq_none (by rw [List.length_take]; omega)]
    simp [h3]

end Peer
