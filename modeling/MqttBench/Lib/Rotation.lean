import Mathlib

/-!
# Rotations of a list

The rotations of a list by consecutive amounts are the rows of a Latin square.

* `existsUnique_window` — every residue occurs once among consecutive numbers.
* `latin` — **over as many consecutive rotations as there are elements, every element takes
  every place once.**
-/

namespace Rotation

/-- **Of `n` consecutive numbers, one is `j` modulo `n`** when it is put `p` places on. -/
theorem existsUnique_window {n j : ℕ} (hj : j < n) (start p : ℕ) :
    ∃! i, start ≤ i ∧ i < start + n ∧ (p + i) % n = j := by
  have hn : 0 < n := Nat.zero_lt_of_lt hj
  -- The distance from where the window starts to where it is wanted.
  obtain ⟨r, hr, hsum⟩ : ∃ r < n, (p + start + r) % n = j := by
    refine ⟨(j + (n - (p + start) % n)) % n, Nat.mod_lt _ hn, ?_⟩
    have hlt := Nat.mod_lt (p + start) hn
    calc (p + start + (j + (n - (p + start) % n)) % n) % n
        = (p + start + (j + (n - (p + start) % n))) % n := by rw [Nat.add_mod_mod]
      _ = ((p + start) % n + (j + (n - (p + start) % n))) % n := by rw [Nat.mod_add_mod]
      _ = (j + n) % n := by congr 1; omega
      _ = j := by rw [Nat.add_mod_right, Nat.mod_eq_of_lt hj]
  refine ⟨start + r, ⟨by omega, by omega, by rw [← hsum]; congr 1; omega⟩, ?_⟩
  rintro i ⟨hle, hlt, hi⟩
  obtain ⟨d, rfl⟩ := Nat.exists_eq_add_of_le hle
  have hmod : (p + start + d) % n = (p + start + r) % n := by
    rw [hsum, ← hi]
    congr 1
    omega
  have hdr : d % n = r % n := Nat.ModEq.add_left_cancel' (p + start) hmod
  rw [Nat.mod_eq_of_lt hr, Nat.mod_eq_of_lt (by omega)] at hdr
  rw [hdr]

/-- **Consecutive rotations are a Latin square.** -/
theorem latin {α : Type*} {l : List α} (hl : l.Nodup) {a : α} (ha : a ∈ l) {p : ℕ}
    (hp : p < l.length) (start : ℕ) :
    ∃! i, start ≤ i ∧ i < start + l.length ∧ (l.rotate i)[p]? = some a := by
  obtain ⟨j, hj, rfl⟩ := List.getElem_of_mem ha
  have hplace : ∀ i, (l.rotate i)[p]? = some l[j] ↔ (p + i) % l.length = j := by
    intro i
    have hlt : (p + i) % l.length < l.length := Nat.mod_lt _ (Nat.zero_lt_of_lt hj)
    rw [List.getElem?_rotate hp, List.getElem?_eq_getElem hlt, Option.some.injEq,
      hl.getElem_inj_iff]
  simpa only [hplace] using existsUnique_window hj start p

end Rotation
