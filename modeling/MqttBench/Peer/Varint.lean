import MqttBench.Lib.Base128

/-!
# The peer's variable-length integers

`put_varint` and `get_varint` of `mqtt_peer.c`: the MQTT remaining length and
property length.  The reader stops after four bytes or at the end of what it was
given, and does not tell its caller which of the three ends it met:

* `getVarint_codes` — on a complete spelling of at most four bytes it returns the
  value and the length;
* `getVarint_cut` — otherwise every byte it looked at asked for another one.
-/

namespace Peer

open Base128

/-! ## Writing -/

/-- The do-while loop of `put_varint`; a `uint32_t` has at most five groups. -/
def putVarintLoop : ℕ → ℕ → List UInt8
  | 0, _ => []
  | fuel + 1, v =>
    if v / 128 = 0 then [UInt8.ofNat (v % 128)]
    else UInt8.ofNat (v % 128 ||| 0x80) :: putVarintLoop fuel (v / 128)

/-- `put_varint(out, v)` for a `uint32_t` value. -/
def putVarint (v : ℕ) : List UInt8 := putVarintLoop 5 v

theorem or_0x80 {n : ℕ} (h : n < 128) : n ||| 0x80 = n + 128 := by
  have hor := Nat.two_pow_add_eq_or_of_lt (i := 7) h 1
  rw [Nat.lor_comm, ← show 2 ^ 7 * 1 = 0x80 from rfl, ← hor, Nat.add_comm]

theorem codes_putVarintLoop (fuel v : ℕ) (h : v < 128 ^ (fuel + 1)) :
    Codes (putVarintLoop (fuel + 1) v) v := by
  induction fuel generalizing v with
  | zero =>
    have hv : v < 128 := by simpa using h
    have hb : (UInt8.ofNat (v % 128)).toNat = v := by rw [UInt8.toNat_ofNat']; omega
    rw [putVarintLoop, if_pos (by omega)]
    simpa [hb] using Codes.last (b := UInt8.ofNat (v % 128)) (by omega)
  | succ fuel ih =>
    rw [putVarintLoop]
    split
    · have hb : (UInt8.ofNat (v % 128)).toNat = v := by rw [UInt8.toNat_ofNat']; omega
      simpa [hb] using Codes.last (b := UInt8.ofNat (v % 128)) (by omega)
    · have hb : (UInt8.ofNat (v % 128 ||| 0x80)).toNat = v % 128 + 128 := by
        rw [or_0x80 (by omega), UInt8.toNat_ofNat']
        omega
      have hrest := ih (v / 128) (by rw [pow_succ] at h; omega)
      have hval : v = (UInt8.ofNat (v % 128 ||| 0x80)).toNat % 128 + 128 * (v / 128) := by omega
      have hcode := Codes.more (b := UInt8.ofNat (v % 128 ||| 0x80)) (by omega) hrest
      rwa [← hval] at hcode

/-- `put_varint` spells every 32-bit value. -/
theorem codes_putVarint {v : ℕ} (h : v < 2 ^ 32) : Codes (putVarint v) v :=
  codes_putVarintLoop 4 v (by omega)

theorem length_putVarintLoop {k v : ℕ} (fuel : ℕ) (h : v < 128 ^ (k + 1)) :
    (putVarintLoop fuel v).length ≤ k + 1 := by
  induction fuel generalizing k v with
  | zero => simp [putVarintLoop]
  | succ fuel ih =>
    rw [putVarintLoop]
    split
    · simp
    · match k with
      | 0 => omega
      | k + 1 =>
        have := ih (k := k) (v := v / 128) (by rw [pow_succ] at h; omega)
        simpa using this

/-- Values below `2 ^ 28` take at most four bytes. -/
theorem length_putVarint {v : ℕ} (h : v < 2 ^ 28) : (putVarint v).length ≤ 4 :=
  length_putVarintLoop (k := 3) 5 (by omega)

/-! ## Reading -/

/-- The loop of `get_varint` from byte `i`: `while (i < len && i < 4)`.  `bytes`
is the memory from `p[i]` on; past its end nothing is known and zero is read. -/
def getVarintLoop : ℕ → List UInt8 → ℕ → ℕ → ℕ → ℕ → ℕ × ℕ
  | 0, _, _, i, value, _ => (value, i)
  | fuel + 1, bytes, len, i, value, mul =>
    if i < len ∧ i < 4 then
      let byte := bytes.headD 0
      let value := value + (byte &&& 0x7f).toNat * mul
      if byte &&& 0x80 = 0 then (value, i + 1)
      else getVarintLoop fuel bytes.tail len (i + 1) value (mul * 128)
    else (value, i)

/-- `get_varint(p, len, &used)`: the value and `used`. -/
def getVarint (p : List UInt8) (len : ℕ) : ℕ × ℕ := getVarintLoop 4 p len 0 0 1

theorem getVarintLoop_cons (fuel : ℕ) (b : UInt8) (p : List UInt8) {len i : ℕ} (value mul : ℕ)
    (h : i < len ∧ i < 4) :
    getVarintLoop (fuel + 1) (b :: p) len i value mul =
      if b.toNat < 128 then (value + b.toNat % 128 * mul, i + 1)
      else getVarintLoop fuel p len (i + 1) (value + b.toNat % 128 * mul) (mul * 128) := by
  rw [getVarintLoop, if_pos h]
  simp only [List.headD_cons, List.tail_cons, toNat_and_0x7f, and_0x80_eq_zero]

theorem getVarintLoop_codes {bs : List UInt8} {v : ℕ} (h : Codes bs v) (rest : List UInt8)
    (len i value mul fuel : ℕ) (hf : i + fuel = 4) (h4 : bs.length ≤ fuel)
    (hlen : i + bs.length ≤ len) :
    getVarintLoop fuel (bs ++ rest) len i value mul = (value + v * mul, i + bs.length) := by
  induction h generalizing i value mul fuel with
  | @last b hb =>
    obtain ⟨f, rfl⟩ : ∃ f, fuel = f + 1 := ⟨fuel - 1, by simp at h4; omega⟩
    simp only [List.length_singleton] at hlen
    rw [List.singleton_append, getVarintLoop_cons _ _ _ _ _ (by omega), if_pos hb,
      Nat.mod_eq_of_lt hb, List.length_singleton]
  | @more b bs v hb _ ih =>
    obtain ⟨f, rfl⟩ : ∃ f, fuel = f + 1 := ⟨fuel - 1, by simp at h4; omega⟩
    simp only [List.length_cons] at h4 hlen
    rw [List.cons_append, getVarintLoop_cons _ _ _ _ _ (by omega), if_neg (by omega),
      ih (i + 1) _ _ f (by omega) (by omega) (by omega), List.length_cons]
    exact Prod.ext (by ring) (by simp only; omega)

/-- On a complete spelling of at most four bytes inside its range, `get_varint`
returns the value and the number of bytes. -/
theorem getVarint_codes {bs : List UInt8} {v : ℕ} (h : Codes bs v) (rest : List UInt8) {len : ℕ}
    (h4 : bs.length ≤ 4) (hlen : bs.length ≤ len) :
    getVarint (bs ++ rest) len = (v, bs.length) := by
  simpa [getVarint] using getVarintLoop_codes h rest len 0 0 1 4 rfl h4 (by omega)

theorem getVarintLoop_cut (p : List UInt8) (len i value mul fuel : ℕ) (hf : i + fuel = 4)
    (hc : Continues (p.take (min fuel (len - i)))) (hp : len ≤ i + p.length) (hi : i ≤ len) :
    getVarintLoop fuel p len i value mul =
      (value + spelled (p.take (min fuel (len - i))) * mul, min 4 len) := by
  induction fuel generalizing p i value mul with
  | zero => rw [getVarintLoop]; exact Prod.ext (by simp [spelled]) (by simp only; omega)
  | succ fuel ih =>
    by_cases hlt : i < len ∧ i < 4
    · match p with
      | [] => simp at hp; omega
      | b :: p =>
        have hm : min (fuel + 1) (len - i) = min fuel (len - (i + 1)) + 1 := by omega
        rw [hm, List.take_succ_cons] at hc ⊢
        obtain ⟨hb, hrest⟩ := List.forall_mem_cons.1 hc
        rw [getVarintLoop_cons _ _ _ _ _ hlt, if_neg (by omega),
          ih p (i + 1) _ _ (by omega) hrest (by simp at hp; omega) (by omega), spelled]
        exact Prod.ext (by ring) rfl
    · have hm : min (fuel + 1) (len - i) = 0 := by omega
      rw [getVarintLoop, if_neg hlt, hm]
      exact Prod.ext (by simp [spelled]) (by simp only; omega)

/-- When the bytes in range, up to four of them, all ask for another one,
`get_varint` has used them all and gives no sign of it. -/
theorem getVarint_cut {p : List UInt8} {len : ℕ} (hp : len ≤ p.length)
    (hc : Continues (p.take (min 4 len))) :
    getVarint p len = (spelled (p.take (min 4 len)), min 4 len) := by
  simpa [getVarint] using getVarintLoop_cut p len 0 0 1 4 rfl hc (by omega) (by omega)

theorem getVarintLoop_take (p : List UInt8) (len i value mul fuel : ℕ) :
    getVarintLoop fuel (p.take (len - i)) len i value mul =
      getVarintLoop fuel p len i value mul := by
  induction fuel generalizing p i value mul with
  | zero => rfl
  | succ fuel ih =>
    rw [getVarintLoop, getVarintLoop]
    split
    · obtain ⟨m, hm⟩ : ∃ m, len - i = m + 1 := ⟨len - (i + 1), by omega⟩
      have htail : (p.take (len - i)).tail = p.tail.take (len - (i + 1)) := by
        rw [hm, show len - (i + 1) = m by omega]
        cases p <;> simp
      have hhead : (p.take (len - i)).headD 0 = p.headD 0 := by
        rw [hm]
        cases p <;> simp
      rw [hhead, htail]
      simp only [ih]
    · rfl

/-- It looks at no byte outside its range. -/
theorem getVarint_take (p : List UInt8) (len : ℕ) :
    getVarint (p.take len) len = getVarint p len :=
  getVarintLoop_take p len 0 0 1 4

theorem getVarintLoop_bounds (p : List UInt8) (len i value mul fuel : ℕ) (hi : i ≤ min len 4 ∨ i = 0) :
    i ≤ (getVarintLoop fuel p len i value mul).2 ∧
      ((getVarintLoop fuel p len i value mul).2 ≤ min len 4 ∨
        (getVarintLoop fuel p len i value mul).2 = 0) := by
  induction fuel generalizing p i value mul with
  | zero => exact ⟨le_refl _, hi⟩
  | succ fuel ih =>
    rw [getVarintLoop]
    split
    · simp only
      split
      · exact ⟨by simp, Or.inl (by simp only; omega)⟩
      · obtain ⟨h1, h2⟩ := ih p.tail (i + 1) (value + (p.headD 0 &&& 0x7f).toNat * mul) (mul * 128)
          (Or.inl (by omega))
        exact ⟨by omega, h2⟩
    · exact ⟨le_refl _, hi⟩

/-- It uses no byte outside its range, and at most four. -/
theorem getVarint_used_le (p : List UInt8) (len : ℕ) : (getVarint p len).2 ≤ min len 4 := by
  obtain ⟨-, h | h⟩ := getVarintLoop_bounds p len 0 0 1 4 (Or.inr rfl)
  · exact h
  · rw [getVarint, h]
    exact Nat.zero_le _

theorem getVarintLoop_lt (p : List UInt8) (len i value mul fuel : ℕ) (hv : value < mul)
    (hm : mul * 128 ^ fuel ≤ 2 ^ 28) : (getVarintLoop fuel p len i value mul).1 < 2 ^ 28 := by
  induction fuel generalizing p i value mul with
  | zero => rw [getVarintLoop]; simp only; omega
  | succ fuel ih =>
    have hpow : 1 ≤ 128 ^ fuel := Nat.one_le_pow _ _ (by norm_num)
    have hmul : mul * 128 * 128 ^ fuel ≤ 2 ^ 28 := by rw [pow_succ] at hm; linarith
    have hle : mul * 128 ≤ 2 ^ 28 := le_trans (Nat.le_mul_of_pos_right _ hpow) hmul
    have hdigit : (p.headD 0 &&& 0x7f).toNat * mul ≤ 127 * mul :=
      Nat.mul_le_mul_right _ (by rw [toNat_and_0x7f]; omega)
    rw [getVarintLoop]
    split
    · simp only
      split
      · simp only; omega
      · exact ih _ _ _ _ (by omega) hmul
    · simp only; omega

/-- The value is below `2 ^ 28`: the `uint32_t` accumulator never wraps. -/
theorem getVarint_lt (p : List UInt8) (len : ℕ) : (getVarint p len).1 < 2 ^ 28 :=
  getVarintLoop_lt p len 0 0 1 4 (by norm_num) (by norm_num)

end Peer
