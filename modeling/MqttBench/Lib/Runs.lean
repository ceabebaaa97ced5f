import Mathlib

/-!
# Reachable states

A system is a set of initial states and a labelled step relation.  What holds at the
start and survives every step holds of every reachable state; the induction is done here
once.

* `Invariant` — holds initially, preserved by every step.
* `Reachable.holds` — **an invariant holds of every reachable state.**
* `Invariant.and` — a step may use what is already known of the states before it.
* `Leads` — one state leads to another; `Leads.le` — what no step lowers is no lower there.
-/

namespace Runs

variable {σ α : Type*} {init : σ → Prop} {step : σ → α → σ → Prop} {P Q : σ → Prop} {s s' : σ}

/-- The states that some run from an initial state reaches. -/
inductive Reachable (init : σ → Prop) (step : σ → α → σ → Prop) : σ → Prop
  | start {s : σ} : init s → Reachable init step s
  | next {s s' : σ} {a : α} : Reachable init step s → step s a s' → Reachable init step s'

/-- `P` holds initially and survives every step. -/
structure Invariant (init : σ → Prop) (step : σ → α → σ → Prop) (P : σ → Prop) : Prop where
  init : ∀ {s}, init s → P s
  step : ∀ {s a s'}, P s → step s a s' → P s'

/-- **An invariant holds of every reachable state.** -/
theorem Reachable.holds (h : Reachable init step s) (hP : Invariant init step P) : P s := by
  induction h with
  | start h0 => exact hP.init h0
  | next _ hs ih => exact hP.step ih hs

/-- Two invariants hold together, and each step may use both. -/
theorem Invariant.and (hP : Invariant init step P)
    (hinit : ∀ {s}, init s → Q s) (hstep : ∀ {s a s'}, P s → Q s → step s a s' → Q s') :
    Invariant init step fun s => P s ∧ Q s where
  init h0 := ⟨hP.init h0, hinit h0⟩
  step h hs := ⟨hP.step h.1 hs, hstep h.1 h.2 hs⟩

/-- Some run from `s` reaches `s'`. -/
abbrev Leads (step : σ → α → σ → Prop) (s s' : σ) : Prop := Reachable (· = s) step s'

theorem Leads.refl (s : σ) : Leads step s s := .start rfl

theorem Leads.trans {t : σ} (h : Leads step s t) (h' : Leads step t s') : Leads step s s' := by
  induction h' with
  | start ht =>
    rw [ht]
    exact h
  | next _ hs ih => exact ih.next hs

theorem Reachable.trans (h : Reachable init step s) (h' : Leads step s s') :
    Reachable init step s' := by
  induction h' with
  | start hs =>
    rw [hs]
    exact h
  | next _ hs ih => exact ih.next hs

/-- **What no step lowers is no lower later.**  The steps may rely on an invariant. -/
theorem Leads.le {f : σ → ℤ} (hP : ∀ s a s', P s → step s a s' → P s')
    (hf : ∀ s a s', P s → step s a s' → f s ≤ f s') (h : Leads step s s') (hs : P s) :
    P s' ∧ f s ≤ f s' := by
  induction h with
  | start hs' =>
    rw [hs']
    exact ⟨hs, le_rfl⟩
  | next _ hstep ih => exact ⟨hP _ _ _ ih.1 hstep, ih.2.trans (hf _ _ _ ih.1 hstep)⟩

end Runs
