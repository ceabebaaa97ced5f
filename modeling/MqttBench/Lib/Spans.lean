import Mathlib

/-!
# A queue of integers, kept as spans

A first-in-first-out queue of integers that ascend can be kept as a list of spans
`[start, stop)`.  Taking one from the front moves a start; adding a run at the back moves
the last stop when the run continues it.

* `elems` — the integers a list of spans stands for.
* `elems_push`, `elems_pop` — **the two operations are those of a queue.**
* `Ordered` — no span is empty and they ascend; `Ordered.push` and `Ordered.pop`.
-/

namespace Spans

/-! ## One span -/

/-- The integers from `a` up to but not including `b`. -/
def run (a b : ℤ) : List ℤ := (List.range (b - a).toNat).map fun j : ℕ => a + (j : ℤ)

@[simp] theorem mem_run {a b i : ℤ} : i ∈ run a b ↔ a ≤ i ∧ i < b := by
  simp only [run, List.mem_map, List.mem_range]
  constructor
  · rintro ⟨j, hj, rfl⟩
    omega
  · rintro ⟨ha, hb⟩
    exact ⟨(i - a).toNat, by omega, by omega⟩

theorem nodup_run (a b : ℤ) : (run a b).Nodup :=
  List.nodup_range.map fun i j h => by simpa using h

theorem length_run {a b : ℤ} (h : a ≤ b) : ((run a b).length : ℤ) = b - a := by
  rw [run, List.length_map, List.length_range]
  omega

theorem count_run (a b i : ℤ) : (run a b).count i = if a ≤ i ∧ i < b then 1 else 0 := by
  rw [List.Nodup.count (nodup_run a b)]
  simp only [mem_run]

theorem run_of_le {a b : ℤ} (h : b ≤ a) : run a b = [] := by
  rw [run, show (b - a).toNat = 0 by omega]
  rfl

theorem run_cons {a b : ℤ} (h : a < b) : run a b = a :: run (a + 1) b := by
  obtain ⟨n, hn⟩ : ∃ n, (b - a).toNat = n + 1 := ⟨(b - a).toNat - 1, by omega⟩
  rw [run, run, hn, show (b - (a + 1)).toNat = n by omega, List.range_succ_eq_map, List.map_cons,
    List.map_map]
  refine congrArg₂ _ (by simp) (List.map_congr_left fun j _ => ?_)
  simp only [Function.comp_apply, Nat.cast_succ]
  ring

theorem run_append {a b c : ℤ} (hab : a ≤ b) (hbc : b ≤ c) : run a b ++ run b c = run a c := by
  obtain ⟨n, rfl⟩ : ∃ n : ℕ, b = a + n := ⟨(b - a).toNat, by omega⟩
  obtain ⟨m, rfl⟩ : ∃ m : ℕ, c = a + n + m := ⟨(c - (a + n)).toNat, by omega⟩
  rw [run, run, run, show (a + (n : ℤ) - a).toNat = n by omega,
    show (a + (n : ℤ) + m - (a + n)).toNat = m by omega,
    show (a + (n : ℤ) + m - a).toNat = n + m by omega, List.range_add, List.map_append,
    List.map_map]
  refine congrArg _ (List.map_congr_left fun j _ => ?_)
  simp only [Function.comp_apply, Nat.cast_add]
  ring

/-! ## The queue -/

/-- The integers that a list of spans stands for. -/
def elems (q : List (ℤ × ℤ)) : List ℤ := q.flatMap fun s => run s.1 s.2

theorem elems_append (q r : List (ℤ × ℤ)) : elems (q ++ r) = elems q ++ elems r :=
  List.flatMap_append

/-- No span is empty, and each ends before the next one begins. -/
structure Ordered (q : List (ℤ × ℤ)) : Prop where
  nonempty : ∀ s ∈ q, s.1 < s.2
  ascending : q.Pairwise fun a b => a.2 ≤ b.1

theorem ordered_nil : Ordered [] := ⟨fun _ h => absurd h List.not_mem_nil, List.Pairwise.nil⟩

/-- Add `[a, b)` at the back: the last span is extended when it ends at `a`. -/
def push (q : List (ℤ × ℤ)) (a b : ℤ) : List (ℤ × ℤ) :=
  match q.getLast? with
  | some s => if s.2 = a then q.dropLast ++ [(s.1, b)] else q ++ [(a, b)]
  | none => q ++ [(a, b)]

/-- A push extends the last span or adds one. -/
theorem push_cases (q : List (ℤ × ℤ)) (a b : ℤ) :
    push q a b = q ++ [(a, b)] ∨
      ∃ front start, q = front ++ [(start, a)] ∧ push q a b = front ++ [(start, b)] := by
  rw [push]
  cases hl : q.getLast? with
  | none => exact .inl rfl
  | some s =>
    obtain ⟨start, stop⟩ := s
    by_cases hs : stop = a
    · subst hs
      refine .inr ⟨q.dropLast, start, ?_, if_pos rfl⟩
      exact (List.dropLast_append_getLast? _ hl).symm
    · exact .inl (if_neg hs)

/-- **Pushing appends.** -/
theorem elems_push {q : List (ℤ × ℤ)} (hq : Ordered q) {a b : ℤ} (h : a ≤ b) :
    elems (push q a b) = elems q ++ run a b := by
  rcases push_cases q a b with hp | ⟨front, start, rfl, hp⟩
  · rw [hp, elems_append]
    simp [elems]
  · have hstart : start < a := hq.nonempty (start, a) (by simp)
    rw [hp, elems_append, elems_append, List.append_assoc]
    simp only [elems, List.flatMap_cons, List.flatMap_nil, List.append_nil]
    rw [run_append hstart.le h]

theorem le_of_mem_push {q : List (ℤ × ℤ)} {a b : ℤ} (h : ∀ s ∈ q, s.2 ≤ b) :
    ∀ s ∈ push q a b, s.2 ≤ b := by
  intro s hs
  rcases push_cases q a b with hp | ⟨front, start, rfl, hp⟩ <;>
    rw [hp, List.mem_append, List.mem_singleton] at hs <;> rcases hs with hs | rfl
  · exact h s hs
  · exact le_rfl
  · exact h s (List.mem_append_left _ hs)
  · exact le_rfl

theorem Ordered.push {q : List (ℤ × ℤ)} (hq : Ordered q) {a b : ℤ} (h : a < b)
    (hle : ∀ s ∈ q, s.2 ≤ a) : Ordered (push q a b) := by
  rcases push_cases q a b with hp | ⟨front, start, rfl, hp⟩
  · rw [hp]
    refine ⟨fun s hs => ?_, List.pairwise_append.2 ⟨hq.ascending, List.pairwise_singleton _ _, ?_⟩⟩
    · rcases List.mem_append.1 hs with hs | hs
      · exact hq.nonempty s hs
      · rw [List.mem_singleton.1 hs]
        exact h
    · intro s hs t ht
      rw [List.mem_singleton.1 ht]
      exact hle s hs
  · have hstart : start < a := hq.nonempty (start, a) (by simp)
    obtain ⟨hfront, -, hlast⟩ := List.pairwise_append.1 hq.ascending
    rw [hp]
    refine ⟨fun s hs => ?_, List.pairwise_append.2 ⟨hfront, List.pairwise_singleton _ _, ?_⟩⟩
    · rcases List.mem_append.1 hs with hs | hs
      · exact hq.nonempty s (List.mem_append_left _ hs)
      · rw [List.mem_singleton.1 hs]
        exact hstart.trans h
    · intro s hs t ht
      rw [List.mem_singleton.1 ht]
      exact hlast s hs (start, a) (List.mem_singleton_self _)

/-- What is left of the spans when the first integer of `s` is taken. -/
def pop (s : ℤ × ℤ) (q : List (ℤ × ℤ)) : List (ℤ × ℤ) :=
  if s.1 + 1 = s.2 then q else (s.1 + 1, s.2) :: q

/-- **Popping takes the first.** -/
theorem elems_pop {s : ℤ × ℤ} (h : s.1 < s.2) (q : List (ℤ × ℤ)) :
    elems (s :: q) = s.1 :: elems (pop s q) := by
  rw [pop]
  split
  · next hs => rw [elems, List.flatMap_cons, run_cons h, hs, run_of_le le_rfl]; rfl
  · rw [elems, List.flatMap_cons, run_cons h]; rfl

theorem Ordered.pop {s : ℤ × ℤ} {q : List (ℤ × ℤ)} (hq : Ordered (s :: q)) :
    Ordered (pop s q) := by
  have hs := hq.nonempty s (by simp)
  obtain ⟨hfirst, hrest⟩ := List.pairwise_cons.1 hq.ascending
  rw [Spans.pop]
  split
  · exact ⟨fun t ht => hq.nonempty t (by simp [ht]), hrest⟩
  · refine ⟨fun t ht => ?_, List.pairwise_cons.2 ⟨hfirst, hrest⟩⟩
    rcases List.mem_cons.1 ht with rfl | ht
    · simp only
      omega
    · exact hq.nonempty t (by simp [ht])

theorem le_of_mem_pop {s : ℤ × ℤ} {q : List (ℤ × ℤ)} {b : ℤ} (h : ∀ t ∈ s :: q, t.2 ≤ b) :
    ∀ t ∈ pop s q, t.2 ≤ b := by
  intro t ht
  rw [pop] at ht
  split at ht
  · exact h t (List.mem_cons_of_mem s ht)
  · rcases List.mem_cons.1 ht with rfl | ht
    · exact h s List.mem_cons_self
    · exact h t (List.mem_cons_of_mem s ht)

/-- What the spans add up to is how many integers they hold. -/
theorem length_elems {q : List (ℤ × ℤ)} (hq : Ordered q) :
    ((elems q).length : ℤ) = (q.map fun s => s.2 - s.1).sum := by
  induction q with
  | nil => rfl
  | cons s q ih =>
    have hs := hq.nonempty s (by simp)
    have hrest : Ordered q :=
      ⟨fun t ht => hq.nonempty t (by simp [ht]), (List.pairwise_cons.1 hq.ascending).2⟩
    rw [elems, List.flatMap_cons, List.length_append, List.map_cons, List.sum_cons, ← ih hrest]
    push_cast
    rw [length_run hs.le]
    rfl

end Spans
