import Mathlib

/-!
# Queues under keys

A dictionary of queues, in which a key is there as long as its queue is not empty.

* `put`, `take` — `d.setdefault(k, deque()).append(a)`, and `d[k].popleft()` with the key removed
  behind the last element.
* `contents_put`, `contents_take` — the queues of the other keys stay as they are.
* `Tidy.put`, `Tidy.take` — no empty queue is kept.
-/

namespace KeyedFifo

variable {κ α : Type*} [DecidableEq κ]

/-- A queue for some of the keys. -/
abbrev Queues (κ α : Type*) := κ → Option (List α)

/-- `d.setdefault(k, deque()).append(a)`. -/
def put (d : Queues κ α) (k : κ) (a : α) : Queues κ α :=
  Function.update d k (some ((d k).getD [] ++ [a]))

/-- The first element under a key, if there is one, and the queues without it. -/
def take (d : Queues κ α) (k : κ) : Queues κ α × Option α :=
  match d k with
  | none | some [] => (d, none)
  | some (a :: rest) => (Function.update d k (if rest.isEmpty then none else some rest), some a)

/-- What waits under a key. -/
def contents (d : Queues κ α) (k : κ) : List α := (d k).getD []

/-- No key has an empty queue. -/
def Tidy (d : Queues κ α) : Prop := ∀ k, d k ≠ some []

theorem contents_put (d : Queues κ α) (k k' : κ) (a : α) :
    contents (put d k a) k' = contents d k' ++ if k' = k then [a] else [] := by
  unfold contents put
  by_cases h : k' = k
  · rw [h, Function.update_self, if_pos rfl]
    rfl
  · rw [Function.update_of_ne h, if_neg h, List.append_nil]

theorem Tidy.put {d : Queues κ α} (h : Tidy d) (k : κ) (a : α) : Tidy (put d k a) := by
  intro k'
  unfold KeyedFifo.put
  by_cases hk : k' = k
  · rw [hk, Function.update_self]
    simp
  · rw [Function.update_of_ne hk]
    exact h k'

/-- Nothing is taken from an empty queue, and the first element from another one. -/
theorem take_cases (d : Queues κ α) (k : κ) :
    (contents d k = [] ∧ take d k = (d, none)) ∨
      ∃ a rest, contents d k = a :: rest ∧ (take d k).2 = some a ∧
        ∀ k', contents (take d k).1 k' = if k' = k then rest else contents d k' := by
  unfold contents take
  match hd : d k with
  | none => exact .inl ⟨rfl, rfl⟩
  | some [] => exact .inl ⟨rfl, rfl⟩
  | some (a :: rest) =>
    refine .inr ⟨a, rest, rfl, rfl, fun k' => ?_⟩
    by_cases h : k' = k
    · rw [h, if_pos rfl]
      simp only [Function.update_self]
      cases rest <;> rfl
    · rw [if_neg h]
      simp only [Function.update_of_ne h]

theorem Tidy.take {d : Queues κ α} (h : Tidy d) (k : κ) : Tidy (take d k).1 := by
  intro k'
  unfold KeyedFifo.take
  match hd : d k with
  | none => exact h k'
  | some [] => exact h k'
  | some (a :: rest) =>
    by_cases hk : k' = k
    · rw [hk]
      simp only [Function.update_self]
      cases rest <;> simp
    · simp only [Function.update_of_ne hk]
      exact h k'

end KeyedFifo
