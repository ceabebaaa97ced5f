import Mathlib

/-!
# Pacing: how much is owed, and when it is due

An offer of `rate` items per `unit` of time, counted in integers.  Item `i` (from 0) is
owed once `rate * d / unit`, rounded down, exceeds `i`; it is due at `(i + 1) * unit / rate`,
rounded up.  The two roundings are adjoint, for every rate and unit.

* `lt_owed_iff` — **item `i` is owed at `d` exactly when it is due at or before `d`.**
* `owed_mono`, `owed_nonneg` — what is owed ascends from nothing.
* `Seen.complete_iff` — whoever counts what is owed only when he looks at the clock has
  counted everything due before an end exactly if no item falls due between his last look
  and that end.
-/

namespace Pacing

/-- How many items are owed after `d`. -/
def owed (rate unit d : ℤ) : ℤ := rate * d / unit

/-- When item `i` is due. -/
def due (rate unit i : ℤ) : ℤ := ((i + 1) * unit + rate - 1) / rate

variable {rate unit : ℤ}

/-- **The floor of what is owed and the ceiling of what is due are adjoint.** -/
theorem lt_owed_iff (hr : 0 < rate) (hu : 0 < unit) (i d : ℤ) :
    i < owed rate unit d ↔ due rate unit i ≤ d := by
  have hfloor : i < owed rate unit d ↔ (i + 1) * unit ≤ rate * d := by
    rw [owed, ← Int.add_one_le_iff, Int.le_ediv_iff_mul_le hu]
  have hceil : due rate unit i ≤ d ↔ (i + 1) * unit ≤ rate * d := by
    have hmul : (d + 1) * rate = rate * d + rate := by ring
    rw [due, ← Int.lt_add_one_iff, Int.ediv_lt_iff_lt_mul hr, hmul]
    omega
  rw [hfloor, hceil]

theorem owed_mono (hr : 0 ≤ rate) (hu : 0 < unit) {d d' : ℤ} (h : d ≤ d') :
    owed rate unit d ≤ owed rate unit d' :=
  Int.ediv_le_ediv hu (mul_le_mul_of_nonneg_left h hr)

theorem owed_nonneg (hr : 0 ≤ rate) (hu : 0 ≤ unit) {d : ℤ} (hd : 0 ≤ d) :
    0 ≤ owed rate unit d :=
  Int.ediv_nonneg (mul_nonneg hr hd) hu

/-- **An item falls due at `d` exactly when the last step of `rate` crossed a multiple of
`unit`.** -/
theorem exists_due_eq_iff (hr : 0 < rate) (hu : 0 < unit) {d : ℤ} (hd : 0 ≤ d) :
    (∃ i : ℕ, due rate unit i = d) ↔ 0 < d ∧ rate * d % unit < rate := by
  have hdiv := Int.mul_ediv_add_emod (rate * d) unit
  have hbefore : owed rate unit (d - 1) < owed rate unit d ↔ rate * d % unit < rate := by
    have hmul : rate * (d - 1) = rate * d - rate := by ring
    rw [owed, owed, Int.ediv_lt_iff_lt_mul hu, hmul, Int.mul_comm (rate * d / unit)]
    omega
  have hitem : ∀ i : ℤ, due rate unit i = d ↔ owed rate unit (d - 1) ≤ i ∧ i < owed rate unit d := by
    intro i
    have h1 := lt_owed_iff hr hu i d
    have h2 := lt_owed_iff hr hu i (d - 1)
    omega
  constructor
  · rintro ⟨i, hi⟩
    obtain ⟨h1, h2⟩ := (hitem i).1 hi
    refine ⟨?_, hbefore.1 (by omega)⟩
    rcases hd.lt_or_eq with hpos | hzero
    · exact hpos
    · rw [← hzero, owed, mul_zero, Int.zero_ediv] at h2
      omega
  · rintro ⟨hpos, hlt⟩
    have hnonneg : 0 ≤ owed rate unit (d - 1) := owed_nonneg hr.le hu.le (by omega)
    obtain ⟨i, hi⟩ := Int.eq_ofNat_of_zero_le hnonneg
    have := hbefore.2 hlt
    exact ⟨i, (hitem i).2 (by omega)⟩

/-! ## Looking at the clock now and then -/

section Schedule

variable {total dueAt : ℤ → ℤ}

/-- `n` items are accounted for by one who looked at the clock at `looks`: all that was
owed at one of these times, and no more. -/
structure Seen (total : ℤ → ℤ) (looks : List ℤ) (n : ℤ) : Prop where
  nonneg : 0 ≤ n
  above : ∀ now ∈ looks, total now ≤ n
  reached : n = 0 ∨ ∃ now ∈ looks, n = total now

theorem seen_nil : Seen total [] 0 where
  nonneg := le_rfl
  above _ h := absurd h List.not_mem_nil
  reached := .inl rfl

theorem Seen.look {looks : List ℤ} {n : ℤ} (h : Seen total looks n) (now : ℤ) :
    Seen total (looks ++ [now]) (max n (total now)) where
  nonneg := h.nonneg.trans (le_max_left _ _)
  above now' hnow := by
    rcases List.mem_append.1 hnow with hnow | hnow
    · exact (h.above now' hnow).trans (le_max_left _ _)
    · rw [List.mem_singleton.1 hnow]
      exact le_max_right _ _
  reached := by
    rcases le_total (total now) n with hle | hle
    · rw [max_eq_left hle]
      exact h.reached.imp_right fun ⟨now', hnow, hn⟩ => ⟨now', List.mem_append_left _ hnow, hn⟩
    · rw [max_eq_right hle]
      exact .inr ⟨now, by simp, rfl⟩

variable (adj : ∀ i now, i + 1 ≤ total now ↔ dueAt i ≤ now)
include adj

theorem total_mono_of_adj {now now' : ℤ} (h : now ≤ now') : total now ≤ total now' := by
  have hdue := (adj (total now - 1) now).1 (by omega)
  have := (adj (total now - 1) now').2 (hdue.trans h)
  omega

/-- The items due before `e` are those owed one moment earlier. -/
theorem ncard_due_lt (e : ℤ) :
    ({i : ℕ | dueAt i < e}.ncard : ℤ) = max 0 (total (e - 1)) := by
  have hset : {i : ℕ | dueAt i < e} = Finset.range (total (e - 1)).toNat := by
    ext i
    have := adj i (e - 1)
    simp only [Set.mem_ofPred_eq, Finset.coe_range, Set.mem_Iio]
    omega
  rw [hset, Set.ncard_coe_finset, Finset.card_range]
  omega

/-- **Everything due before `e` is accounted for exactly when no item falls due between the
last look and `e`.** -/
theorem Seen.complete_iff {looks : List ℤ} {n e : ℤ} (h : Seen total looks n)
    (hlooks : ∀ now ∈ looks, now < e) :
    n = {i : ℕ | dueAt i < e}.ncard ↔
      ∀ i : ℕ, dueAt i < e → ∃ now ∈ looks, dueAt i ≤ now := by
  have hnonneg := h.nonneg
  have hle : n ≤ max 0 (total (e - 1)) := by
    rcases h.reached with h0 | ⟨now, hnow, hn⟩
    · omega
    · have := total_mono_of_adj adj (show now ≤ e - 1 by have := hlooks now hnow; omega)
      omega
  rw [ncard_due_lt adj]
  constructor
  · intro hn i hi
    have howed := (adj i (e - 1)).2 (by omega)
    rcases h.reached with h0 | ⟨now, hnow, htotal⟩
    · omega
    · exact ⟨now, hnow, (adj i now).1 (by omega)⟩
  · intro hall
    by_contra hne
    obtain ⟨k, hk⟩ := Int.eq_ofNat_of_zero_le hnonneg
    have hdue := (adj k (e - 1)).1 (by omega)
    obtain ⟨now, hnow, hlate⟩ := hall k (by omega)
    have := (adj k now).2 hlate
    have := h.above now hnow
    omega

end Schedule

end Pacing
