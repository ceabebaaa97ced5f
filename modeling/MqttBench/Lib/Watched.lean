import Mathlib

/-!
# Watching what a computation reads

A computation over a memory, with the places it read and whether an unsigned subtraction
wrapped.  The record is an output only: the computation cannot see it, so a watched program
and the plain one return the same value.

* `Watched` — the computations, with the two operations that are watched.
* `Within n w` — `w` read below `n` only, and no subtraction wrapped.
* `within_bind` — **a sequence stays within bounds exactly when each of its parts does**; so
  do `within_ite` and the other rules, which makes bounds exact.
-/

/-- A value, with what happened on the way to it. -/
structure Watched (α : Type) where
  val : α
  /-- The places that were read, in order. -/
  reads : List ℕ
  /-- Whether a subtraction went below zero. -/
  wrapped : Bool

namespace Watched

variable {α β : Type}

instance : Monad Watched where
  pure a := ⟨a, [], false⟩
  bind w f := ⟨(f w.val).val, w.reads ++ (f w.val).reads, w.wrapped || (f w.val).wrapped⟩

/-- Read one place; outside of the memory nothing is known and the default is read. -/
def peek [Inhabited α] (mem : List α) (i : ℕ) : Watched α := ⟨mem.getD i default, [i], false⟩

/-- The difference of two unsigned numbers of `width` bits. -/
def sub (width a b : ℕ) : Watched ℕ :=
  ⟨if b ≤ a then a - b else 2 ^ width - (b - a), [], decide (a < b)⟩

@[simp] theorem val_pure (a : α) : (pure a : Watched α).val = a := rfl

@[simp] theorem val_bind (w : Watched α) (f : α → Watched β) :
    (w >>= f).val = (f w.val).val := rfl

@[simp] theorem val_peek [Inhabited α] (mem : List α) (i : ℕ) :
    (peek mem i).val = mem.getD i default := rfl

theorem val_sub_of_le {width a b : ℕ} (h : b ≤ a) : (sub width a b).val = a - b := if_pos h

theorem val_ite (c : Prop) [Decidable c] (w w' : Watched α) :
    (if c then w else w').val = if c then w.val else w'.val := by
  split <;> rfl

/-- Nothing at or above `n` was read, and nothing wrapped. -/
structure Within (n : ℕ) (w : Watched α) : Prop where
  reads : ∀ i ∈ w.reads, i < n
  wrapped : w.wrapped = false

variable {n : ℕ}

@[simp] theorem within_pure (a : α) : Within n (pure a : Watched α) :=
  ⟨fun _ h => absurd h List.not_mem_nil, rfl⟩

/-- **A sequence stays within bounds exactly when each of its parts does.** -/
theorem within_bind (w : Watched α) (f : α → Watched β) :
    Within n (w >>= f) ↔ Within n w ∧ Within n (f w.val) := by
  constructor
  · rintro ⟨hreads, hwrapped⟩
    obtain ⟨h1, h2⟩ := Bool.or_eq_false_iff.1 hwrapped
    obtain ⟨hr1, hr2⟩ := List.forall_mem_append.1 hreads
    exact ⟨⟨hr1, h1⟩, ⟨hr2, h2⟩⟩
  · rintro ⟨h1, h2⟩
    exact ⟨List.forall_mem_append.2 ⟨h1.reads, h2.reads⟩,
      Bool.or_eq_false_iff.2 ⟨h1.wrapped, h2.wrapped⟩⟩

theorem within_peek [Inhabited α] (mem : List α) (i : ℕ) : Within n (peek mem i) ↔ i < n :=
  ⟨fun h => h.reads i (List.mem_singleton_self i), fun h =>
    ⟨fun _ hj => List.mem_singleton.1 hj ▸ h, rfl⟩⟩

theorem within_sub (width a b : ℕ) : Within n (sub width a b) ↔ b ≤ a := by
  constructor
  · intro h
    have := h.wrapped
    simpa [sub] using this
  · intro h
    exact ⟨fun _ hi => absurd hi List.not_mem_nil, decide_eq_false (not_lt.2 h)⟩

theorem within_ite (c : Prop) [Decidable c] (w w' : Watched α) :
    Within n (if c then w else w') ↔ (c → Within n w) ∧ (¬ c → Within n w') := by
  by_cases hc : c <;> simp [hc]

end Watched
