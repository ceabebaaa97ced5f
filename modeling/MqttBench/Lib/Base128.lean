import Mathlib

/-!
# Base-128 integers with a continuation bit

A natural number written in base 128, least significant group first, one group
per byte, the top bit of a byte saying that another byte follows.  Nothing here
knows who writes such a number or what its length limit is; a decoder is proved
right by comparing it with the relation `Codes`.

* `Codes bs v` — the bytes `bs` spell `v`.
* `codes_trichotomy` — up to a limit of `n` bytes, a byte string starts with a
  complete spelling, or ends inside one, or runs over the limit.
* `decode_eq_some_iff` — the decoder with a limit finds exactly the spellings.
* `spelled` — what the groups of any bytes add up to, a continuation run included.
-/

namespace Base128

/-- The continuation bit of a byte is clear exactly when the byte is below 128. -/
theorem and_0x80_eq_zero (b : UInt8) : b &&& 0x80 = 0 ↔ b.toNat < 128 := by
  revert b
  decide +kernel

/-- The payload bits of a byte are its value modulo 128. -/
theorem toNat_and_0x7f (b : UInt8) : (b &&& 0x7f).toNat = b.toNat % 128 := by
  rw [UInt8.toNat_and, show (0x7f : UInt8).toNat = 2 ^ 7 - 1 from rfl,
    Nat.and_two_pow_sub_one_eq_mod]

/-- `Codes bs v`: the bytes `bs` spell `v`, every byte but the last carrying the
continuation bit. -/
inductive Codes : List UInt8 → ℕ → Prop
  | last {b : UInt8} : b.toNat < 128 → Codes [b] b.toNat
  | more {b : UInt8} {bs : List UInt8} {v : ℕ} :
      128 ≤ b.toNat → Codes bs v → Codes (b :: bs) (b.toNat % 128 + 128 * v)

theorem Codes.ne_nil {bs : List UInt8} {v : ℕ} (h : Codes bs v) : bs ≠ [] := by
  cases h <;> simp

theorem Codes.length_pos {bs : List UInt8} {v : ℕ} (h : Codes bs v) : 0 < bs.length :=
  List.length_pos_iff.2 h.ne_nil

/-- `n` groups spell less than `128 ^ n`. -/
theorem Codes.lt_pow {bs : List UInt8} {v : ℕ} (h : Codes bs v) : v < 128 ^ bs.length := by
  induction h with
  | last hb => simpa using hb
  | more _ _ ih =>
    rw [List.length_cons, pow_succ]
    omega

/-- The continuation run: every byte asks for another one. -/
def Continues (bs : List UInt8) : Prop := ∀ b ∈ bs, 128 ≤ b.toNat

instance (bs : List UInt8) : Decidable (Continues bs) :=
  inferInstanceAs (Decidable (∀ b ∈ bs, 128 ≤ b.toNat))

theorem Codes.not_continues {bs : List UInt8} {v : ℕ} (h : Codes bs v) : ¬ Continues bs := by
  induction h with
  | last hb => intro hc; have := hc _ (List.mem_singleton_self _); omega
  | more _ _ ih => exact fun hc => ih fun b hb => hc b (List.mem_cons_of_mem _ hb)

/-- Read with a limit of `n` bytes, a byte string starts with a complete
spelling, stops inside one, or carries `n` continuation bits in a row. -/
theorem codes_trichotomy (n : ℕ) (xs : List UInt8) :
    (∃ bs rest v, xs = bs ++ rest ∧ Codes bs v ∧ bs.length ≤ n) ∨
      (xs.length < n ∧ Continues xs) ∨ (n ≤ xs.length ∧ Continues (xs.take n)) := by
  induction xs generalizing n with
  | nil =>
    rcases Nat.eq_zero_or_pos n with rfl | hn
    · exact Or.inr (Or.inr ⟨le_refl _, by simp [Continues]⟩)
    · exact Or.inr (Or.inl ⟨hn, by simp [Continues]⟩)
  | cons b xs ih =>
    match n with
    | 0 => exact Or.inr (Or.inr ⟨Nat.zero_le _, by simp [Continues]⟩)
    | n + 1 =>
      by_cases hb : b.toNat < 128
      · exact Or.inl ⟨[b], xs, b.toNat, rfl, .last hb, by simp⟩
      · rcases ih n with ⟨bs, rest, v, rfl, hv, hn⟩ | ⟨hl, hc⟩ | ⟨hl, hc⟩
        · exact Or.inl ⟨b :: bs, rest, _, rfl, .more (by omega) hv, by simpa using hn⟩
        · refine Or.inr (Or.inl ⟨by simpa using hl, ?_⟩)
          exact List.forall_mem_cons.2 ⟨by omega, hc⟩
        · refine Or.inr (Or.inr ⟨by simpa using hl, ?_⟩)
          rw [List.take_succ_cons]
          exact List.forall_mem_cons.2 ⟨by omega, hc⟩

/-- A spelling that starts a continuation run is longer than the run. -/
theorem Codes.length_of_continues {bs : List UInt8} {v : ℕ} (h : Codes bs v) {n : ℕ}
    {rest : List UInt8} (hc : Continues ((bs ++ rest).take n)) : n < bs.length := by
  by_contra hn
  push Not at hn
  refine h.not_continues fun b hb => hc b ?_
  rw [List.take_append, List.take_of_length_le hn]
  exact List.mem_append_left _ hb

/-! ## Decoding with a limit -/

/-- Read a number of at most `n` bytes off the front. -/
def decode : ℕ → List UInt8 → Option (ℕ × List UInt8)
  | 0, _ => none
  | _ + 1, [] => none
  | n + 1, b :: xs =>
    if b.toNat < 128 then some (b.toNat, xs)
    else (decode n xs).map fun r => (b.toNat % 128 + 128 * r.1, r.2)

theorem Codes.decode {bs : List UInt8} {v : ℕ} (h : Codes bs v) (rest : List UInt8) {n : ℕ}
    (hn : bs.length ≤ n) : Base128.decode n (bs ++ rest) = some (v, rest) := by
  induction h generalizing n with
  | @last b hb =>
    obtain ⟨m, rfl⟩ : ∃ m, n = m + 1 := ⟨n - 1, by simp at hn; omega⟩
    rw [List.singleton_append, Base128.decode, if_pos hb]
  | @more b bs v hb _ ih =>
    obtain ⟨m, rfl⟩ : ∃ m, n = m + 1 := ⟨n - 1, by simp at hn; omega⟩
    rw [List.cons_append, Base128.decode, if_neg (by omega), ih (by simpa using hn)]
    rfl

/-- **The decoder finds exactly the spellings within its limit.** -/
theorem decode_eq_some_iff {n : ℕ} {xs rest : List UInt8} {v : ℕ} :
    decode n xs = some (v, rest) ↔ ∃ bs, xs = bs ++ rest ∧ Codes bs v ∧ bs.length ≤ n := by
  constructor
  · intro h
    induction n generalizing xs v with
    | zero => cases h
    | succ n ih =>
      match xs with
      | [] => cases h
      | b :: xs =>
        rw [decode] at h
        split at h
        · next hb =>
          obtain ⟨rfl, rfl⟩ := Prod.mk.inj (Option.some.inj h)
          exact ⟨[b], rfl, .last hb, by simp⟩
        · next hb =>
          obtain ⟨⟨w, r⟩, hw, heq⟩ := Option.map_eq_some_iff.1 h
          obtain ⟨rfl, rfl⟩ := Prod.mk.inj heq
          obtain ⟨bs, rfl, hbs, hlen⟩ := ih hw
          exact ⟨b :: bs, rfl, .more (by omega) hbs, by simpa using hlen⟩
  · rintro ⟨bs, rfl, hbs, hlen⟩
    exact hbs.decode rest hlen

/-- Where the decoder finds nothing, every byte within the limit asks for another. -/
theorem continues_of_decode_eq_none {n : ℕ} {xs : List UInt8} (h : decode n xs = none) :
    Continues (xs.take n) := by
  rcases codes_trichotomy n xs with ⟨bs, rest, v, rfl, hbs, hlen⟩ | ⟨hl, hc⟩ | ⟨-, hc⟩
  · rw [hbs.decode rest hlen] at h
    cases h
  · rwa [List.take_of_length_le hl.le]
  · exact hc

/-- What the groups of the bytes add up to, whichever carry the continuation bit. -/
def spelled : List UInt8 → ℕ
  | [] => 0
  | b :: bs => b.toNat % 128 + 128 * spelled bs

end Base128
