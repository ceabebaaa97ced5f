import MqttBench.Lib.Runs

/-!
# Permits

A pool of permits, each of which is free, held by the one who asks for work, or in use.
A permit only moves; none is made or lost, but for `add`.

* `Move.total` — what one move does to the number of permits.
* `conserved` — **the permits add up to those there were and those added**, in every
  reachable state of a system whose steps are moves.
-/

namespace Permits

open Runs

/-- How many permits are free, held and in use. -/
structure Pool where
  free : ℕ
  held : ℕ
  used : ℕ

def Pool.total (p : Pool) : ℕ := p.free + p.held + p.used

/-- What can happen to a pool; the number is of the permits it adds. -/
inductive Move : Pool → ℕ → Pool → Prop
  | take {free held used : ℕ} : Move ⟨free + 1, held, used⟩ 0 ⟨free, held + 1, used⟩
  | use {free held used : ℕ} : Move ⟨free, held + 1, used⟩ 0 ⟨free, held, used + 1⟩
  | giveBack {free held used : ℕ} : Move ⟨free, held + 1, used⟩ 0 ⟨free + 1, held, used⟩
  | release {free held used : ℕ} : Move ⟨free, held, used + 1⟩ 0 ⟨free + 1, held, used⟩
  | add {free held used : ℕ} : Move ⟨free, held, used⟩ 1 ⟨free + 1, held, used⟩
  | stay {p : Pool} : Move p 0 p

theorem Move.total {p p' : Pool} {added : ℕ} (h : Move p added p') :
    p'.total = p.total + added := by
  cases h <;> simp only [Pool.total] <;> omega

/-- **Permits are only moved**, in a system each of whose steps is a move of its pool, as
long as `extra` counts what the steps add. -/
theorem conserved {σ α : Type*} {init : σ → Prop} {step : σ → α → σ → Prop} {P : σ → Prop}
    {pool : σ → Pool} {extra : σ → ℕ} {n : ℕ} (hP : Invariant init step P)
    (hinit : ∀ {s}, init s → (pool s).total = n + extra s)
    (hmove : ∀ {s a s'}, P s → step s a s' →
      ∃ added, Move (pool s) added (pool s') ∧ extra s' = extra s + added) :
    Invariant init step fun s => P s ∧ (pool s).total = n + extra s := by
  apply hP.and hinit
  intro s a s' hp htotal hs
  obtain ⟨added, hm, hextra⟩ := hmove hp hs
  rw [hm.total, htotal, hextra, Nat.add_assoc]

end Permits
