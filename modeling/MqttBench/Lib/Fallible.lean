import Mathlib

/-!
# Computations that may raise

What a computation returned, or raised, tells of its parts.

* `bind_eq_ok`, `bind_eq_error` — one step and the rest.
* `each`, `each_eq_ok`, `mapM_eq_some` — a step for each element, up to the first that raises.
-/

namespace Fallible

universe u v w

variable {ε : Type u} {α β : Type v} {γ : Type w}

theorem bind_eq_ok {x : Except ε α} {f : α → Except ε β} {b : β} :
    x >>= f = .ok b ↔ ∃ a, x = .ok a ∧ f a = .ok b := by
  cases x with
  | ok a => exact ⟨fun h => ⟨a, rfl, h⟩, fun ⟨_, ha, h⟩ => Except.ok.inj ha ▸ h⟩
  | error e => exact ⟨nofun, fun ⟨_, ha, _⟩ => nomatch ha⟩

theorem bind_eq_error {x : Except ε α} {f : α → Except ε β} {e : ε} :
    x >>= f = .error e ↔ x = .error e ∨ ∃ a, x = .ok a ∧ f a = .error e := by
  cases x with
  | ok a =>
    exact ⟨fun h => .inr ⟨a, rfl, h⟩, fun h => h.elim nofun fun ⟨_, ha, h⟩ => Except.ok.inj ha ▸ h⟩
  | error d =>
    exact ⟨fun h => .inl (congrArg Except.error (Except.error.inj h)),
      fun h => h.elim (fun h => congrArg Except.error (Except.error.inj h)) fun ⟨_, ha, _⟩ => nomatch ha⟩

/-- A step for each element, up to the first that raises. -/
def each (f : γ → Except ε β) : List γ → Except ε (List β)
  | [] => return []
  | x :: xs => do
    let y ← f x
    let ys ← each f xs
    return y :: ys

/-- Every step returned. -/
theorem each_eq_ok {f : γ → Except ε β} {xs : List γ} {ys : List β} :
    each f xs = .ok ys ↔ List.Forall₂ (fun x y => f x = .ok y) xs ys := by
  induction xs generalizing ys with
  | nil =>
    refine ⟨fun h => Except.ok.inj h ▸ .nil, fun h => ?_⟩
    cases h
    rfl
  | cons x xs ih =>
    simp only [each, bind_eq_ok, ih]
    constructor
    · rintro ⟨y, hy, zs, hzs, h⟩
      exact Except.ok.inj h ▸ .cons hy hzs
    · rintro (_ | ⟨hy, hys⟩)
      exact ⟨_, hy, _, hys, rfl⟩

/-- Some step raised. -/
theorem mem_of_each_eq_error {f : γ → Except ε β} {xs : List γ} {e : ε}
    (h : each f xs = .error e) : ∃ x ∈ xs, f x = .error e := by
  induction xs with
  | nil => cases h
  | cons x xs ih =>
    rcases bind_eq_error.1 h with hx | ⟨y, -, hrest⟩
    · exact ⟨x, List.mem_cons_self, hx⟩
    · rcases bind_eq_error.1 hrest with hxs | ⟨ys, -, hnot⟩
      · obtain ⟨z, hz, hfail⟩ := ih hxs
        exact ⟨z, List.mem_cons_of_mem _ hz, hfail⟩
      · cases hnot

/-- Steps that all return. -/
theorem each_of_forall {f : γ → Except ε β} {g : γ → β} {xs : List γ}
    (h : ∀ x ∈ xs, f x = .ok (g x)) : each f xs = .ok (xs.map g) := by
  rw [each_eq_ok, List.forall₂_map_right_iff]
  exact List.forall₂_same.2 h

theorem mapM_eq_some {α : Type u} {f : α → Option β} {g : α → β} {xs : List α}
    (h : ∀ a ∈ xs, f a = some (g a)) : xs.mapM f = some (xs.map g) := by
  induction xs with
  | nil => rfl
  | cons a xs ih =>
    rw [List.mapM_cons, h a List.mem_cons_self, ih fun b hb => h b (List.mem_cons_of_mem a hb)]
    rfl

end Fallible
