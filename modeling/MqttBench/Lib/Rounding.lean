import Mathlib.Data.Rat.Floor
import Mathlib.Tactic.Linarith
import Mathlib.Tactic.Positivity

/-!
# Rounding, with ties to the even neighbour

* `roundHalfEven`, `roundTo` — to an integer, and to a number of decimals.
* `abs_roundTo_sub_le`, `roundTo_mono` — **a rounded value is close, and rounding keeps the order.**
-/

namespace Rounding

/-- To the nearest integer, a tie to the even one. -/
def roundHalfEven (q : ℚ) : ℤ :=
  let r := q - q.floor
  if r < 1 / 2 then q.floor
  else if 1 / 2 < r then q.floor + 1
  else if q.floor % 2 = 0 then q.floor
  else q.floor + 1

/-- To `digits` decimals. -/
def roundTo (digits : ℕ) (q : ℚ) : ℚ := roundHalfEven (q * 10 ^ digits) / 10 ^ digits

theorem floor_bounds (q : ℚ) : (q.floor : ℚ) ≤ q ∧ q < q.floor + 1 :=
  ⟨Int.floor_le q, Int.lt_floor_add_one q⟩

/-- The floor, or the next integer when the rest is at least a half. -/
theorem roundHalfEven_cases (q : ℚ) :
    roundHalfEven q = q.floor ∧ q - q.floor ≤ 1 / 2 ∨
      roundHalfEven q = q.floor + 1 ∧ 1 / 2 ≤ q - q.floor := by
  unfold roundHalfEven
  dsimp only
  split_ifs with hlt hgt heven
  · exact .inl ⟨rfl, hlt.le⟩
  · exact .inr ⟨rfl, hgt.le⟩
  · exact .inl ⟨rfl, not_lt.1 hgt⟩
  · exact .inr ⟨rfl, not_lt.1 hlt⟩

theorem abs_roundHalfEven_sub_le (q : ℚ) : |(roundHalfEven q : ℚ) - q| ≤ 1 / 2 := by
  obtain ⟨hlow, hhigh⟩ := floor_bounds q
  rw [abs_le]
  obtain ⟨hround, hrest⟩ | ⟨hround, hrest⟩ := roundHalfEven_cases q <;> rw [hround] <;>
    push_cast <;> constructor <;> linarith

theorem roundHalfEven_mono {a b : ℚ} (h : a ≤ b) : roundHalfEven a ≤ roundHalfEven b := by
  have hfloor : a.floor ≤ b.floor := Int.floor_mono h
  obtain hlt | heq := hfloor.lt_or_eq
  · have hnext : a.floor + 1 ≤ b.floor := hlt
    obtain ⟨ha, -⟩ | ⟨ha, -⟩ := roundHalfEven_cases a <;>
      obtain ⟨hb, -⟩ | ⟨hb, -⟩ := roundHalfEven_cases b <;> omega
  · -- of one floor, only a lower rest could go down
    unfold roundHalfEven
    dsimp only
    rw [heq]
    have hrest : a - b.floor ≤ b - b.floor := sub_le_sub_right h _
    split_ifs <;> first | omega | exact absurd hrest (by linarith)

/-- A rounded value is at most half a unit of its last decimal away. -/
theorem abs_roundTo_sub_le (digits : ℕ) (q : ℚ) : |roundTo digits q - q| ≤ 1 / 2 / 10 ^ digits := by
  have hpos : (0 : ℚ) < 10 ^ digits := by positivity
  have hclose := abs_roundHalfEven_sub_le (q * 10 ^ digits)
  have hsub : roundTo digits q - q =
      ((roundHalfEven (q * 10 ^ digits) : ℚ) - q * 10 ^ digits) / 10 ^ digits := by
    rw [roundTo, sub_div, mul_div_cancel_right₀ _ hpos.ne']
  rw [hsub, abs_div, abs_of_pos hpos]
  exact div_le_div_of_nonneg_right hclose hpos.le

theorem roundTo_mono (digits : ℕ) {a b : ℚ} (h : a ≤ b) : roundTo digits a ≤ roundTo digits b := by
  have hpos : (0 : ℚ) ≤ 10 ^ digits := by positivity
  refine div_le_div_of_nonneg_right ?_ hpos
  exact_mod_cast roundHalfEven_mono (mul_le_mul_of_nonneg_right h hpos)

example : roundTo 3 (12345 / 10000) = 617 / 500 := by decide +kernel

end Rounding
