import MqttBench.Peer.Bounds
import MqttBench.Peer.Source

/-!
# The property scan

`has_user_property` of `mqtt_peer.c` on `uint32_t`s, which wrap, and the property blocks of
an MQTT 5 PUBLISH that it scans.

* `scanRound`, `scan` — the program, its reads watched.
* `Property`, `block` — the properties of a PUBLISH and how they are encoded.
* `hasUserPropertyLoop_property` — **one round skips exactly one property**, of any kind.
* `scan_exact` — **the scan ends, reads inside its block, and finds exactly the user
  properties.**
-/

namespace Peer

open Base128 Watched

/-! ## The program -/

/-- How a round of the loop ends. -/
inductive ScanRound
  | goOn (i : UInt32)
  | stop (found : Bool)

/-- `(uint32_t)p[i] << 8 | p[i + 1]`. -/
def wide16 (hi lo : UInt8) : UInt32 := hi.toUInt32 <<< 8 ||| lo.toUInt32

/-- One round of `while (i < n)`. -/
def scanRound (p : List UInt8) (n i : UInt32) : Watched ScanRound :=
  if i < n then do
    let id ← peek p i.toNat
    let i := i + 1
    match id with
    | 0x01 => pure (.goOn (i + 1))
    | 0x23 => pure (.goOn (i + 2))
    | 0x02 => pure (.goOn (i + 4))
    | 0x0B =>
      let left ← sub 32 n.toNat i.toNat
      let skip ← watchedGetVarint p i.toNat left
      pure (.goOn (i + UInt32.ofNat skip.2))
    | 0x03 | 0x08 | 0x09 =>
      if n < i + 2 then pure (.stop false)
      else do
        let hi ← peek p i.toNat
        let lo ← peek p (i + 1).toNat
        pure (.goOn (i + (2 + wide16 hi lo)))
    | 0x26 => pure (.stop true)
    | _ => pure (.stop false)
  else pure (.stop false)

/-- The loop, for so many rounds; `none` when it has not ended by then. -/
def scan (p : List UInt8) (n : UInt32) : ℕ → UInt32 → Watched (Option Bool)
  | 0, _ => pure none
  | rounds + 1, i => do
    let round ← scanRound p n i
    match round with
    | .goOn i => scan p n rounds i
    | .stop found => pure (some found)

/-! ## Words -/

/-- A block length from which no index of the scan wraps. -/
def Roomy (n : UInt32) : Prop := n.toNat + 65535 < 2 ^ 32

instance (n : UInt32) : Decidable (Roomy n) :=
  inferInstanceAs (Decidable (n.toNat + 65535 < 2 ^ 32))

theorem toNat_wide16 (hi lo : UInt8) : (wide16 hi lo).toNat = (read16 hi lo).toNat := by
  have hhi := hi.toNat_lt
  have hlo := lo.toNat_lt
  have hor := Nat.two_pow_add_eq_or_of_lt (i := 8) (b := lo.toNat) (by omega) hi.toNat
  rw [toNat_read16, wide16, UInt32.toNat_or, UInt32.toNat_shiftLeft, UInt8.toNat_toUInt32,
    UInt8.toNat_toUInt32, Nat.shiftLeft_eq, show (8 : UInt32).toNat % 32 = 8 from rfl,
    Nat.mod_eq_of_lt (by omega), Nat.mul_comm, ← hor]

/-- A sum that does not wrap. -/
theorem toNat_add_of_lt {a b : UInt32} {k : ℕ} (hb : b.toNat = k) (h : a.toNat + k < 2 ^ 32) :
    (a + b).toNat = a.toNat + k := by
  rw [UInt32.toNat_add, hb, Nat.mod_eq_of_lt h]

/-- The indices that a round reads at do not wrap. -/
theorem Roomy.toNat_add {n i k : UInt32} (hn : Roomy n) (hi : i.toNat < n.toNat)
    (hk : k.toNat ≤ 2) : (i + 1 + k).toNat = i.toNat + 1 + k.toNat := by
  unfold Roomy at hn
  have h1 : (i + 1).toNat = i.toNat + 1 := toNat_add_of_lt rfl (by omega)
  rw [toNat_add_of_lt rfl (by omega), h1]

/-! ## One round -/

/-- What a round at `i` of the scan tells of the loop: it goes on further behind, or it is
over. -/
def ScanRound.Fits (p : List UInt8) (n i : UInt32) : ScanRound → Prop
  | .goOn j => i.toNat < n.toNat ∧ i.toNat < j.toNat ∧ ∀ rounds,
      hasUserPropertyLoop p n.toNat (rounds + 1) i.toNat =
        hasUserPropertyLoop p n.toNat rounds j.toNat
  | .stop found => ∀ rounds, hasUserPropertyLoop p n.toNat (rounds + 1) i.toNat = found

/-- A round that skips without wrapping moves forward. -/
theorem fits_goOn {p : List UInt8} {n i k : UInt32} {m : ℕ} (hi : i.toNat < n.toNat)
    (hk : k.toNat = m) (hroom : i.toNat + 1 + m < 2 ^ 32)
    (hloop : ∀ rounds, hasUserPropertyLoop p n.toNat (rounds + 1) i.toNat =
      hasUserPropertyLoop p n.toNat rounds (i.toNat + 1 + m)) :
    (ScanRound.goOn (i + 1 + k)).Fits p n i := by
  have h1 : (i + 1).toNat = i.toNat + 1 := toNat_add_of_lt rfl (by omega)
  have h2 : (i + 1 + k).toNat = i.toNat + 1 + m := by
    rw [toNat_add_of_lt hk (by omega), h1]
  refine ⟨hi, by omega, ?_⟩
  intro rounds
  rw [hloop, h2]

/-- The branch of the three kinds with a length in front. -/
theorem fits_prefixed {p : List UInt8} {n : UInt32} (hn : Roomy n) {i : UInt32}
    (hi : i.toNat < n.toNat) (hloop : ∀ rounds,
      hasUserPropertyLoop p n.toNat (rounds + 1) i.toNat = if n.toNat < i.toNat + 1 + 2 then false
        else hasUserPropertyLoop p n.toNat rounds
          (i.toNat + 1 + (2 + (read16 (p.getD (i.toNat + 1) 0) (p.getD (i.toNat + 2) 0)).toNat))) :
    (if n < i + 1 + 2 then pure (.stop false) else do
      let hi ← peek p (i + 1).toNat
      let lo ← peek p (i + 1 + 1).toNat
      pure (.goOn (i + 1 + (2 + wide16 hi lo))) : Watched ScanRound).val.Fits p n i := by
  have hroom : n.toNat + 65535 < 2 ^ 32 := hn
  have h1 : (i + 1).toNat = i.toNat + 1 := toNat_add_of_lt rfl (by omega)
  have h2 : (i + 1 + 1).toNat = i.toNat + 2 := hn.toNat_add hi (by decide)
  have h3 : (i + 1 + 2).toNat = i.toNat + 1 + 2 := hn.toNat_add hi (by decide)
  have hcut : n < i + 1 + 2 ↔ n.toNat < i.toNat + 1 + 2 := by rw [UInt32.lt_iff_toNat_lt, h3]
  rw [val_ite]
  simp only [hcut]
  split
  · next h =>
    intro rounds
    rw [hloop, if_pos h]
  · next h =>
    rw [val_bind, val_bind, val_peek, val_peek, val_pure, h1, h2,
      show (default : UInt8) = 0 from rfl]
    have hlen := (read16 (p.getD (i.toNat + 1) 0) (p.getD (i.toNat + 2) 0)).toNat_lt
    have hskip : (2 + wide16 (p.getD (i.toNat + 1) 0) (p.getD (i.toNat + 2) 0)).toNat =
        2 + (read16 (p.getD (i.toNat + 1) 0) (p.getD (i.toNat + 2) 0)).toNat := by
      refine toNat_add_of_lt (toNat_wide16 _ _) ?_
      change 2 + _ < _
      omega
    refine fits_goOn hi hskip (by omega) ?_
    intro rounds
    rw [hloop, if_neg h]

/-- **A round moves forward**, and leaves what the loop finds as it is. -/
theorem fits_scanRound (p : List UInt8) {n : UInt32} (hn : Roomy n) (i : UInt32) :
    (scanRound p n i).val.Fits p n i := by
  have hroom : n.toNat + 65535 < 2 ^ 32 := hn
  unfold scanRound
  by_cases hi : i < n
  · have hlt := UInt32.lt_iff_toNat_lt.1 hi
    have h1 : (i + 1).toNat = i.toNat + 1 := toNat_add_of_lt rfl (by omega)
    have hloop := fun rounds => hasUserPropertyLoop.eq_2 p n.toNat i.toNat rounds
    simp only [if_pos hlt] at hloop
    rw [if_pos hi, val_bind, val_peek, show (default : UInt8) = 0 from rfl]
    generalize p.getD i.toNat 0 = id at hloop ⊢
    simp only
    split
    · exact fits_goOn hlt rfl (by simp; omega) hloop
    · exact fits_goOn hlt rfl (by simp; omega) hloop
    · exact fits_goOn hlt rfl (by simp; omega) hloop
    · have hused := getVarint_used_le (p.drop (i.toNat + 1)) (n.toNat - (i.toNat + 1))
      rw [val_bind, val_bind, val_pure, h1, val_sub_of_le (by omega), watchedGetVarint_val]
      exact fits_goOn hlt (UInt32.toNat_ofNat_of_lt' (by simp [UInt32.size]; omega)) (by omega) hloop
    · exact fits_prefixed hn hlt hloop
    · exact fits_prefixed hn hlt hloop
    · exact fits_prefixed hn hlt hloop
    · exact hloop
    · next h1 h2 h3 h4 h5 h6 h7 h8 =>
      -- no other identifier is known
      intro rounds
      rw [hloop]
      simp_all
  · rw [if_neg hi]
    intro rounds
    rw [hasUserPropertyLoop, if_neg (mt UInt32.lt_iff_toNat_lt.2 hi)]

/-! ## The whole scan -/

/-- As many rounds as there are bytes left are enough. -/
theorem hasUserPropertyLoop_succ (p : List UInt8) {n : UInt32} (hn : Roomy n) {rounds : ℕ}
    {i : UInt32} (h : n.toNat - i.toNat ≤ rounds) :
    hasUserPropertyLoop p n.toNat (rounds + 1) i.toNat =
      hasUserPropertyLoop p n.toNat rounds i.toNat := by
  induction rounds generalizing i with
  | zero =>
    have hend : ¬ i.toNat < n.toNat := by omega
    rw [hasUserPropertyLoop.eq_2, if_neg hend, hasUserPropertyLoop]
  | succ rounds ih =>
    have hfits := fits_scanRound p hn i
    cases hround : (scanRound p n i).val with
    | stop found =>
      rw [hround] at hfits
      exact (hfits (rounds + 1)).trans (hfits rounds).symm
    | goOn j =>
      rw [hround] at hfits
      obtain ⟨hi, hlt, hloop⟩ := hfits
      rw [hloop, hloop]
      exact ih (by omega)

theorem hasUserPropertyLoop_eq (p : List UInt8) {n : UInt32} (hn : Roomy n) {rounds : ℕ}
    (h : n.toNat ≤ rounds) :
    hasUserPropertyLoop p n.toNat rounds 0 = hasUserProperty p n.toNat := by
  induction rounds, h using Nat.le_induction with
  | base => rfl
  | succ rounds hle ih => exact (hasUserPropertyLoop_succ p hn (i := 0) hle).trans ih

/-- The scan ends within one round more than there are bytes left, and finds what the loop
finds. -/
theorem scan_val (p : List UInt8) {n : UInt32} (hn : Roomy n) {rounds : ℕ} {i : UInt32}
    (h : n.toNat - i.toNat < rounds) :
    (scan p n rounds i).val = some (hasUserPropertyLoop p n.toNat rounds i.toNat) := by
  induction rounds generalizing i with
  | zero => omega
  | succ rounds ih =>
    have hfits := fits_scanRound p hn i
    rw [scan, val_bind]
    revert hfits
    cases (scanRound p n i).val with
    | stop found =>
      intro hfits
      rw [hfits, val_pure]
    | goOn j =>
      rintro ⟨hi, hlt, hloop⟩
      rw [hloop]
      exact ih (by omega)

/-- **A round reads inside the block.** -/
theorem within_scanRound (p : List UInt8) {n : UInt32} (hn : Roomy n) (i : UInt32) :
    Within n.toNat (scanRound p n i) := by
  have hroom : n.toNat + 65535 < 2 ^ 32 := hn
  rw [scanRound, within_ite]
  refine ⟨?_, fun _ => within_pure _⟩
  intro hi
  have hlt := UInt32.lt_iff_toNat_lt.1 hi
  have h1 : (i + 1).toNat = i.toNat + 1 := toNat_add_of_lt rfl (by omega)
  have hprefixed : Within n.toNat (if n < i + 1 + 2 then pure (.stop false) else do
      let hi ← peek p (i + 1).toNat
      let lo ← peek p (i + 1 + 1).toNat
      pure (.goOn (i + 1 + (2 + wide16 hi lo))) : Watched ScanRound) := by
    have h2 : (i + 1 + 1).toNat = i.toNat + 2 := hn.toNat_add hlt (by decide)
    have h3 : (i + 1 + 2).toNat = i.toNat + 1 + 2 := hn.toNat_add hlt (by decide)
    rw [within_ite]
    refine ⟨fun _ => within_pure _, ?_⟩
    intro hcut
    rw [UInt32.lt_iff_toNat_lt, h3] at hcut
    rw [within_bind, within_peek, within_bind, within_peek, h1, h2]
    exact ⟨by omega, by omega, within_pure _⟩
  rw [within_bind, within_peek]
  refine ⟨hlt, ?_⟩
  simp only
  split
  · exact within_pure _
  · exact within_pure _
  · exact within_pure _
  · rw [within_bind, within_sub, within_bind, val_sub_of_le (by omega)]
    exact ⟨by omega, within_watchedGetVarint (by omega), within_pure _⟩
  · exact hprefixed
  · exact hprefixed
  · exact hprefixed
  · exact within_pure _
  · exact within_pure _

theorem within_scan (p : List UInt8) {n : UInt32} (hn : Roomy n) (rounds : ℕ) (i : UInt32) :
    Within n.toNat (scan p n rounds i) := by
  induction rounds generalizing i with
  | zero => exact within_pure _
  | succ rounds ih =>
    rw [scan, within_bind]
    refine ⟨within_scanRound p hn i, ?_⟩
    cases (scanRound p n i).val with
    | goOn j => exact ih j
    | stop found => exact within_pure _

/-! ## Property blocks -/

/-- What a two-byte length can announce. -/
structure Field where
  bytes : List UInt8
  length_lt : bytes.length < 65536

/-- A property of an MQTT 5 PUBLISH.  A subscription identifier may have any spelling of at
most four bytes. -/
inductive Property
  | payloadFormat (v : UInt8)
  | messageExpiry (v : UInt32)
  | contentType (s : Field)
  | responseTopic (s : Field)
  | correlationData (s : Field)
  | subscriptionIdentifier (bs : List UInt8) (v : ℕ) (codes : Codes bs v) (le : bs.length ≤ 4)
  | topicAlias (v : UInt16)
  | userProperty (key value : Field)

/-- A four-byte integer. -/
def put32 (v : UInt32) : List UInt8 :=
  [(v >>> 24).toUInt8, (v >>> 16).toUInt8, (v >>> 8).toUInt8, v.toUInt8]

/-- How a property is encoded. -/
def Property.encode : Property → List UInt8
  | .payloadFormat v => [0x01, v]
  | .messageExpiry v => 0x02 :: put32 v
  | .contentType s => 0x03 :: putStr s.bytes
  | .responseTopic s => 0x08 :: putStr s.bytes
  | .correlationData s => 0x09 :: putStr s.bytes
  | .subscriptionIdentifier bs _ _ _ => 0x0B :: bs
  | .topicAlias v => 0x23 :: put16 v
  | .userProperty key value => 0x26 :: (putStr key.bytes ++ putStr value.bytes)

def Property.isUser : Property → Bool
  | .userProperty _ _ => true
  | _ => false

/-- A property block. -/
def block (props : List Property) : List UInt8 := props.flatMap Property.encode

/-- A length in front of its bytes is read back. -/
theorem read16_putStr (s : Field) : ∃ hi lo, putStr s.bytes = hi :: lo :: s.bytes ∧
    (read16 hi lo).toNat = s.bytes.length := by
  refine ⟨_, _, rfl, ?_⟩
  rw [read16_put16, UInt16.toNat_ofNat_of_lt' s.length_lt]

theorem getD_append_length (front rest : List UInt8) (i : ℕ) :
    (front ++ rest).getD (front.length + i) 0 = rest.getD i 0 := by
  rw [List.getD_append_right _ _ _ _ (by omega), Nat.add_sub_cancel_left]

/-- The scan of a field with a length in front goes on behind it. -/
theorem hasUserPropertyLoop_field (front rest : List UInt8) {id : UInt8}
    (hid : id = 0x03 ∨ id = 0x08 ∨ id = 0x09) (s : Field) {n : ℕ}
    (hn : (front ++ (id :: putStr s.bytes ++ rest)).length = n) (rounds : ℕ) :
    hasUserPropertyLoop (front ++ (id :: putStr s.bytes ++ rest)) n (rounds + 1) front.length =
      hasUserPropertyLoop (front ++ (id :: putStr s.bytes ++ rest)) n rounds
        (front.length + (id :: putStr s.bytes).length) := by
  obtain ⟨hi, lo, hput, hread⟩ := read16_putStr s
  rw [hput] at hn ⊢
  have hlen : n = front.length + 3 + s.bytes.length + rest.length := by
    rw [← hn]
    simp
    omega
  have h0 := getD_append_length front (id :: hi :: lo :: s.bytes ++ rest) 0
  have h1 := getD_append_length front (id :: hi :: lo :: s.bytes ++ rest) 1
  have h2 := getD_append_length front (id :: hi :: lo :: s.bytes ++ rest) 2
  simp only [List.cons_append, Nat.add_zero, List.getD_cons_zero, List.getD_cons_succ] at h0 h1 h2 ⊢
  have hskip : front.length + 1 + (2 + s.bytes.length) =
      front.length + (id :: hi :: lo :: s.bytes).length := by
    simp only [List.length_cons]
    omega
  rw [hasUserPropertyLoop, if_pos (by omega), h0, h1, h2, hread, hskip,
    if_neg (show ¬ n < front.length + 1 + 2 by omega)]
  rcases hid with rfl | rfl | rfl <;> rfl

/-- **One round skips exactly one property**, unless it is a user property. -/
theorem hasUserPropertyLoop_property (front rest : List UInt8) (prop : Property) {n : ℕ}
    (hn : (front ++ (prop.encode ++ rest)).length = n) (rounds : ℕ) :
    hasUserPropertyLoop (front ++ (prop.encode ++ rest)) n (rounds + 1) front.length =
      (prop.isUser || hasUserPropertyLoop (front ++ (prop.encode ++ rest)) n rounds
        (front.length + prop.encode.length)) := by
  have h0 : (front ++ (prop.encode ++ rest)).getD front.length 0 = (prop.encode ++ rest).getD 0 0 :=
    getD_append_length front (prop.encode ++ rest) 0
  have hlt : front.length < n := by
    have hpos : 0 < prop.encode.length := by cases prop <;> exact Nat.succ_pos _
    rw [← hn, List.length_append, List.length_append]
    omega
  cases prop with
  | contentType s => exact hasUserPropertyLoop_field front rest (.inl rfl) s hn rounds
  | responseTopic s => exact hasUserPropertyLoop_field front rest (.inr (.inl rfl)) s hn rounds
  | correlationData s => exact hasUserPropertyLoop_field front rest (.inr (.inr rfl)) s hn rounds
  | payloadFormat v | messageExpiry v | topicAlias v | userProperty key value =>
    rw [hasUserPropertyLoop, if_pos hlt, h0]
    rfl
  | subscriptionIdentifier bs v codes le =>
    have hdrop : (front ++ (0x0B :: bs ++ rest)).drop (front.length + 1) = bs ++ rest := by
      rw [List.drop_length_add_append]
      rfl
    have hlen : bs.length ≤ n - (front.length + 1) := by
      rw [← hn]
      simp only [Property.encode, List.length_append, List.length_cons]
      omega
    have hvarint := getVarint_codes codes rest le hlen
    have hskip : front.length + 1 + bs.length = front.length + (0x0B :: bs).length := by
      rw [List.length_cons]
      omega
    rw [hasUserPropertyLoop, if_pos hlt, h0]
    change hasUserPropertyLoop (front ++ (0x0B :: bs ++ rest)) n rounds (front.length + 1 +
      (getVarint ((front ++ (0x0B :: bs ++ rest)).drop (front.length + 1)) _).2) = _
    rw [hdrop, hvarint, hskip]
    rfl

/-- **The scan of a property block finds exactly the user properties.** -/
theorem hasUserPropertyLoop_block (front : List UInt8) (props : List Property) {n rounds : ℕ}
    (hn : (front ++ block props).length = n) (hrounds : (block props).length < rounds) :
    hasUserPropertyLoop (front ++ block props) n rounds front.length =
      props.any Property.isUser := by
  induction props generalizing front rounds with
  | nil =>
    obtain ⟨rounds, rfl⟩ : ∃ r, rounds = r + 1 := ⟨rounds - 1, by omega⟩
    have hend : front.length = n := by rw [← hn, block, List.flatMap_nil, List.append_nil]
    rw [hasUserPropertyLoop, if_neg (by omega)]
    rfl
  | cons prop props ih =>
    obtain ⟨rounds, rfl⟩ : ∃ r, rounds = r + 1 := ⟨rounds - 1, by omega⟩
    have hpos : 0 < prop.encode.length := by cases prop <;> exact Nat.succ_pos _
    have hsplit : block (prop :: props) = prop.encode ++ block props := List.flatMap_cons
    rw [hsplit] at hn hrounds ⊢
    rw [List.length_append] at hrounds
    rw [hasUserPropertyLoop_property front (block props) prop hn, List.any_cons,
      ← List.append_assoc, ← List.length_append]
    rw [← List.append_assoc] at hn
    rw [ih (front ++ prop.encode) hn (by omega)]

/-- The block that the source attaches is one of these. -/
theorem putProperties_eq_block : ∃ contentType key value key' value',
    putProperties = block [.messageExpiry 60, .contentType contentType, .userProperty key value,
      .userProperty key' value'] :=
  ⟨⟨ascii "application/octet-stream", by decide⟩, ⟨ascii "schema", by decide⟩,
    ⟨ascii "telemetry.v1", by decide⟩, ⟨ascii "region", by decide⟩, ⟨ascii "eu-west-1", by decide⟩,
    by decide +kernel⟩

/-- **Property-block scanning is exact.**  A block of 4 GiB less 64 KiB or more is left out;
`parse_publish` hands over less than 256 MiB. -/
theorem scan_exact (p : List UInt8) {n : UInt32} (hn : Roomy n) :
    (∀ rounds > n.toNat, (scan p n rounds 0).val = some (hasUserProperty p n.toNat)) ∧
      (∀ rounds, Within n.toNat (scan p n rounds 0)) ∧
      (∀ (props : List Property) (behind : List UInt8), p = block props ++ behind →
        n.toNat = (block props).length →
          hasUserProperty p n.toNat = props.any Property.isUser) ∧
      ∀ (body : List UInt8) (len : ℕ), Roomy (UInt32.ofNat (getVarint body len).1) := by
  refine ⟨?_, fun rounds => within_scan p hn rounds 0, ?_, ?_⟩
  · intro rounds hrounds
    rw [scan_val p hn (Nat.lt_of_le_of_lt (Nat.sub_le _ _) hrounds)]
    exact congrArg some (hasUserPropertyLoop_eq p hn hrounds.le)
  · rintro props behind rfl hlen
    have hscan : hasUserPropertyLoop (block props) n.toNat (n.toNat + 1) 0 = _ :=
      hasUserPropertyLoop_block [] props hlen.symm (by omega)
    rw [← hasUserProperty_take, List.take_left' hlen.symm, ← hscan]
    exact (hasUserPropertyLoop_eq _ hn (Nat.le_succ _)).symm
  · intro body len
    have hlt := getVarint_lt body len
    rw [Roomy, UInt32.toNat_ofNat_of_lt' (lt_trans hlt (by norm_num [UInt32.size]))]
    omega

/-- A topic alias that looks like a user property. -/
theorem scan_exact_alias :
    hasUserProperty [0x23, 0x26, 0x26, 0x01, 0x26] 5 = false :=
  (scan_exact [0x23, 0x26, 0x26, 0x01, 0x26] (n := 5) (by decide)).2.2.1
    [.topicAlias 0x2626, .payloadFormat 0x26] [] rfl rfl

end Peer
