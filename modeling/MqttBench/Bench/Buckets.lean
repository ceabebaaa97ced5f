import MqttBench.Bench.Histogram

/-!
# Bucket geometry

The intervals that `bucket_bounds` gives to the indices of `bucket_of`.

* `bucketBounds_succ` — a bucket ends where the next one starts.
* `mem_bucketBounds` — a value lies in its bucket.
* `bucketOf_mono` — a larger value has no smaller bucket.
* `width_le` — above 32 a bucket is at most a sixteenth of its lower end wide.
* `bucket_geometry` — **the buckets tile the naturals.**
-/

namespace Bench.Histogram

/-- The lower end of a bucket. -/
def low (index : ℕ) : ℕ := (bucketBounds index).1

/-- The width of a bucket. -/
def width (index : ℕ) : ℕ := if index < 32 then 1 else 2 ^ (index / 16 - 1)

theorem low_of_lt {index : ℕ} (h : index < 32) : low index = index := by
  rw [low, bucketBounds, if_pos h]

theorem low_of_le {index : ℕ} (h : 32 ≤ index) :
    low index = (16 + index % 16) * 2 ^ (index / 16 - 1) := by
  rw [low, bucketBounds, if_neg (not_lt.2 h)]
  exact Nat.shiftLeft_eq _ _

theorem width_of_lt {index : ℕ} (h : index < 32) : width index = 1 := if_pos h

theorem width_of_le {index : ℕ} (h : 32 ≤ index) : width index = 2 ^ (index / 16 - 1) :=
  if_neg (not_lt.2 h)

theorem width_pos (index : ℕ) : 0 < width index := by
  unfold width
  split
  · exact one_pos
  · exact Nat.two_pow_pos _

/-- A bucket reaches from its lower end over its width. -/
theorem bucketBounds_eq (index : ℕ) : bucketBounds index = (low index, low index + width index) := by
  by_cases h : index < 32
  · rw [low_of_lt h, width_of_lt h, bucketBounds, if_pos h]
  · rw [low_of_le (not_lt.1 h), width_of_le (not_lt.1 h), bucketBounds, if_neg h]
    simp only [Nat.shiftLeft_eq, subBuckets, one_mul]
    rfl

/-- **The next bucket starts where this one ends**: within a row of sixteen, from one row to
the next, and from the single values to the first row. -/
theorem low_succ (index : ℕ) : low (index + 1) = low index + width index := by
  rcases lt_or_ge index 31 with h | h
  · rw [low_of_lt (by omega), low_of_lt (by omega), width_of_lt (by omega)]
  rcases eq_or_lt_of_le h with rfl | h
  · rfl
  · rw [low_of_le (by omega), low_of_le (by omega), width_of_le (by omega)]
    by_cases hrow : index % 16 = 15
    · obtain ⟨row, hrow'⟩ : ∃ row, index / 16 = row + 1 := ⟨index / 16 - 1, by omega⟩
      rw [show (index + 1) % 16 = 0 by omega, show (index + 1) / 16 = row + 2 by omega, hrow, hrow',
        show row + 2 - 1 = row + 1 by omega, Nat.add_sub_cancel, pow_succ]
      ring
    · rw [show (index + 1) % 16 = index % 16 + 1 by omega,
        show (index + 1) / 16 = index / 16 by omega]
      ring

theorem bucketBounds_succ (index : ℕ) : (bucketBounds (index + 1)).1 = (bucketBounds index).2 := by
  rw [bucketBounds_eq, bucketBounds_eq]
  exact low_succ index

theorem low_strictMono : StrictMono low :=
  strictMono_nat_of_lt_succ fun index => by
    rw [low_succ]
    exact Nat.lt_add_of_pos_right (width_pos index)

/-- **Above 32 a bucket is at most a sixteenth of its lower end wide.** -/
theorem width_le {index : ℕ} (h : 32 ≤ index) : 16 * width index ≤ low index := by
  rw [width_of_le h, low_of_le h]
  exact Nat.mul_le_mul_right _ (Nat.le_add_right _ _)

/-! ## Values -/

theorem le_bucketOf {value : ℕ} (h : 32 ≤ value) : 32 ≤ bucketOf value := by
  have hlog : 5 ≤ Nat.log2 value := (Nat.le_log2 (by omega)).2 h
  rw [bucketOf_of_le h]
  omega

/-- The leading bit of a value and the four bits below it are between 16 and 31. -/
theorem div_two_pow_log2 {value : ℕ} (h : 32 ≤ value) :
    16 ≤ value / 2 ^ (Nat.log2 value - 4) ∧ value / 2 ^ (Nat.log2 value - 4) < 32 := by
  have hlog : 5 ≤ Nat.log2 value := (Nat.le_log2 (by omega)).2 h
  obtain ⟨e, he⟩ : ∃ e, Nat.log2 value = e + 4 := ⟨Nat.log2 value - 4, by omega⟩
  have hle : 2 ^ (e + 4) ≤ value := (Nat.le_log2 (by omega)).1 he.ge
  have hlt : value < 2 ^ (e + 4 + 1) := (Nat.log2_lt (by omega)).1 (by omega)
  rw [he, Nat.add_sub_cancel, Nat.le_div_iff_mul_le (Nat.two_pow_pos _),
    Nat.div_lt_iff_lt_mul (Nat.two_pow_pos _)]
  rw [pow_add] at hle
  rw [add_assoc, pow_add] at hlt
  omega

/-- **A value lies in its bucket.** -/
theorem low_bucketOf (value : ℕ) :
    low (bucketOf value) ≤ value ∧ value < low (bucketOf value) + width (bucketOf value) := by
  by_cases h : value < 32
  · have hself : bucketOf value = value := if_pos h
    rw [hself, low_of_lt h, width_of_lt h]
    omega
  · have h := not_lt.1 h
    obtain ⟨hge, hlt⟩ := div_two_pow_log2 h
    have hlog : 5 ≤ Nat.log2 value := (Nat.le_log2 (by omega)).2 h
    have hbucket := le_bucketOf h
    rw [low_of_le hbucket, width_of_le hbucket]
    -- The row of the index is the exponent, its place in the row the four bits.
    have hrow : bucketOf value / 16 - 1 = Nat.log2 value - 4 := by
      rw [bucketOf_of_le h]
      omega
    have hsub : 16 + bucketOf value % 16 = value / 2 ^ (Nat.log2 value - 4) := by
      rw [bucketOf_of_le h]
      omega
    rw [hrow, hsub]
    have hdiv := Nat.div_add_mod value (2 ^ (Nat.log2 value - 4))
    have hmod := Nat.mod_lt value (Nat.two_pow_pos (Nat.log2 value - 4))
    rw [mul_comm] at hdiv
    omega

theorem mem_bucketBounds (value : ℕ) :
    (bucketBounds (bucketOf value)).1 ≤ value ∧ value < (bucketBounds (bucketOf value)).2 := by
  rw [bucketBounds_eq]
  exact low_bucketOf value

/-- **A larger value has no smaller bucket.** -/
theorem bucketOf_mono : Monotone bucketOf := by
  intro v w hvw
  by_contra hlt
  have hlow := low_strictMono.monotone (Nat.succ_le_of_lt (not_le.1 hlt))
  have hv := (low_bucketOf v).1
  have hw := (low_bucketOf w).2
  rw [Nat.succ_eq_add_one, low_succ] at hlow
  omega

/-- A value lies in no other bucket than its own. -/
theorem bucketOf_eq_iff {value index : ℕ} : bucketOf value = index ↔
    (bucketBounds index).1 ≤ value ∧ value < (bucketBounds index).2 := by
  constructor
  · rintro rfl
    exact mem_bucketBounds value
  · rw [bucketBounds_eq]
    rintro ⟨hlow, hhigh⟩
    obtain ⟨hlow', hhigh'⟩ := low_bucketOf value
    rw [← low_succ] at hhigh hhigh'
    have hle := low_strictMono.lt_iff_lt.1 (lt_of_le_of_lt hlow hhigh')
    have hge := low_strictMono.lt_iff_lt.1 (lt_of_le_of_lt hlow' hhigh)
    omega

theorem width_eq_two_pow (index : ℕ) : ∃ e, width index = 2 ^ e := by
  unfold width
  split
  · exact ⟨0, rfl⟩
  · exact ⟨_, rfl⟩

/-- **Bucket geometry.** -/
theorem bucket_geometry :
    (∀ value index, bucketOf value = index ↔
        (bucketBounds index).1 ≤ value ∧ value < (bucketBounds index).2) ∧
      (bucketBounds 0).1 = 0 ∧
      (∀ index, (bucketBounds index).2 = (bucketBounds (index + 1)).1) ∧
      Monotone bucketOf ∧
      (∀ index, ∃ e, (bucketBounds index).2 = (bucketBounds index).1 + 2 ^ e) ∧
      ∀ index, 32 ≤ index →
        16 * ((bucketBounds index).2 - (bucketBounds index).1) ≤ (bucketBounds index).1 := by
  refine ⟨fun _ _ => bucketOf_eq_iff, rfl, fun index => (bucketBounds_succ index).symm,
    bucketOf_mono, ?_, ?_⟩
  · intro index
    obtain ⟨e, he⟩ := width_eq_two_pow index
    exact ⟨e, by rw [bucketBounds_eq, he]⟩
  · intro index h
    rw [bucketBounds_eq, Nat.add_sub_cancel_left]
    exact width_le h

/-- Around the seam between the single values and the first row. -/
theorem bucket_geometry_seam :
    16 * ((bucketBounds 32).2 - (bucketBounds 32).1) ≤ (bucketBounds 32).1 :=
  bucket_geometry.2.2.2.2.2 32 le_rfl

end Bench.Histogram
