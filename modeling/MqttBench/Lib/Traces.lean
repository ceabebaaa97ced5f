import Mathlib

/-!
# Runs of a deterministic system

A system that takes one event after another is a fold over the events.  A condition on a
step, its state and its event, is asked of every step of a run by `Along`.

* `along_append` — a condition along a run, part by part.
* `Along.foldl` — **what every allowed step keeps holds at the end.**
* `along_or_foldl` — either every step meets a condition, or what its first failure
  brings about holds at the end.
-/

namespace Traces

variable {σ α : Type*} {step : σ → α → σ} {P Q : σ → α → Prop} {I J : σ → Prop}

/-- `P` holds of every step of the run of `events` from `s`. -/
def Along (step : σ → α → σ) (P : σ → α → Prop) : σ → List α → Prop
  | _, [] => True
  | s, a :: events => P s a ∧ Along step P (step s a) events

theorem along_append (s : σ) (xs ys : List α) :
    Along step P s (xs ++ ys) ↔ Along step P s xs ∧ Along step P (xs.foldl step s) ys := by
  induction xs generalizing s with
  | nil => simp [Along]
  | cons a xs ih => simp [Along, ih, and_assoc]

/-- **What every allowed step keeps holds at the end.** -/
theorem Along.foldl {s : σ} {events : List α} (h : Along step P s events) (hs : I s)
    (hstep : ∀ s a, I s → P s a → I (step s a)) : I (events.foldl step s) := by
  induction events generalizing s with
  | nil => exact hs
  | cons a events ih => exact ih h.2 (hstep s a hs h.1)

/-- What each allowed step says of its event holds of every event. -/
theorem Along.forall {R : α → Prop} (hR : ∀ s a, P s a → R a) {s : σ} {events : List α}
    (h : Along step P s events) : ∀ a ∈ events, R a := by
  induction events generalizing s with
  | nil => exact fun a ha => absurd ha List.not_mem_nil
  | cons b events ih => exact List.forall_mem_cons.2 ⟨hR s b h.1, ih h.2⟩

/-- A run that is cut off is a run. -/
theorem Along.take {s : σ} {events : List α} (h : Along step P s events) (n : ℕ) :
    Along step P s (events.take n) := by
  rw [← List.take_append_drop n events, along_append] at h
  exact h.1

/-- What every step keeps holds at the end. -/
theorem foldl_holds (hstep : ∀ s a, I s → I (step s a)) {s : σ} (hs : I s) (events : List α) :
    I (events.foldl step s) := by
  induction events generalizing s with
  | nil => exact hs
  | cons a events ih => exact ih (hstep s a hs)

/-- Either every step meets a condition, or what its first failure brings about holds at
the end. -/
theorem along_or_foldl (hI : ∀ s a, I s → I (step s a)) (hJ : ∀ s a, J s → J (step s a))
    (hfail : ∀ s a, I s → ¬ P s a → J (step s a)) {s : σ} (hs : I s) (events : List α) :
    Along step P s events ∨ J (events.foldl step s) := by
  induction events generalizing s with
  | nil => exact .inl trivial
  | cons a events ih =>
    by_cases ha : P s a
    · exact (ih (hI s a hs)).imp_left fun h => ⟨ha, h⟩
    · exact .inr (foldl_holds hJ (hfail s a hs ha) events)

end Traces
