import MqttBench.Lib.Traces

/-!
# Saving by writing aside and renaming

A program that writes a file's new text to a draft and then renames the draft over the
file can be killed between any two of these operations, or while it writes.  What a
reader finds then is what some number of whole saves left.

* `Op`, `Disk.step` — the three operations of a save, each atomic.
* `killed_saves` — **a kill between operations is a kill between saves.**
-/

namespace AtomicSave

/-- The text of a draft: none, one cut short, or a whole one. -/
inductive Draft (α : Type*)
  | absent
  | torn
  | whole (a : α)

/-- What readers see, the files whose text was cut short, and the drafts. -/
structure Disk (σ κ α : Type*) where
  visible : σ
  broken : List κ
  draft : κ → Draft α

/-- The operations of a save: the draft is opened, its text is complete, it is renamed. -/
inductive Op (κ α : Type*)
  | begin (k : κ)
  | write (k : κ) (a : α)
  | replace (k : κ)

variable {σ κ α : Type*} [DecidableEq κ] (name : α → κ) (commit : σ → α → σ)

/-- One operation.  Renaming a draft that was cut short leaves a broken file. -/
def Disk.step (d : Disk σ κ α) : Op κ α → Disk σ κ α
  | .begin k => { d with draft := Function.update d.draft k .torn }
  | .write k a => { d with draft := Function.update d.draft k (.whole a) }
  | .replace k =>
    match d.draft k with
    | .absent => d
    | .torn =>
      { d with broken := k :: d.broken, draft := Function.update d.draft k .absent }
    | .whole a =>
      { visible := commit d.visible a
        broken := d.broken.filter (· ≠ k)
        draft := Function.update d.draft k .absent }

/-- The operations of one save. -/
def ops (a : α) : List (Op κ α) := [.begin (name a), .write (name a) a, .replace (name a)]

/-- The disk after the first `n` operations of some saves. -/
def kill (saves : List α) (n : ℕ) (d : Disk σ κ α) : Disk σ κ α :=
  ((saves.flatMap (ops name)).take n).foldl (Disk.step commit) d

/-- A whole save shows its text. -/
theorem foldl_ops (a : α) (d : Disk σ κ α) :
    (((ops name a).foldl (Disk.step commit) d).visible = commit d.visible a) ∧
      ((ops name a).foldl (Disk.step commit) d).broken = d.broken.filter (· ≠ name a) := by
  simp [ops, Disk.step]

/-- A save that is cut short shows nothing. -/
theorem take_ops (a : α) (d : Disk σ κ α) {n : ℕ} (hn : n < 3) :
    (((ops name a).take n).foldl (Disk.step commit) d).visible = d.visible ∧
      (((ops name a).take n).foldl (Disk.step commit) d).broken = d.broken := by
  match n, hn with
  | 0, _ => exact ⟨rfl, rfl⟩
  | 1, _ => exact ⟨rfl, rfl⟩
  | 2, _ => exact ⟨rfl, rfl⟩

/-- **A kill between operations is a kill between saves**, and no file is broken. -/
theorem killed_saves (saves : List α) (n : ℕ) (d : Disk σ κ α) (hd : d.broken = []) :
    (kill name commit saves n d).broken = [] ∧
      ∃ m, (kill name commit saves n d).visible = (saves.take m).foldl commit d.visible := by
  induction saves generalizing n d with
  | nil => exact ⟨by simpa [kill] using hd, 0, by simp [kill]⟩
  | cons a saves ih =>
    by_cases hn : n < 3
    · have hops : kill name commit (a :: saves) n d =
          ((ops name a).take n).foldl (Disk.step commit) d := by
        rw [kill, List.flatMap_cons, List.take_append_of_le_length (by simp [ops]; omega)]
      obtain ⟨hvisible, hbroken⟩ := take_ops name commit a d hn
      rw [hops]
      exact ⟨hbroken.trans hd, 0, hvisible⟩
    · obtain ⟨hvisible, hbroken⟩ := foldl_ops name commit a d
      have hops : kill name commit (a :: saves) n d =
          kill name commit saves (n - 3) ((ops name a).foldl (Disk.step commit) d) := by
        rw [kill, kill, List.flatMap_cons, List.take_append, List.foldl_append,
          List.take_of_length_le (by simp [ops]; omega)]
        rfl
      obtain ⟨hb, m, hm⟩ := ih (n - 3) _ (by rw [hbroken, hd]; rfl)
      rw [hops]
      exact ⟨hb, m + 1, by rw [hm, hvisible]; rfl⟩

/-- A program that is not killed makes all its saves. -/
theorem kill_of_le {saves : List α} {n : ℕ} (h : (saves.flatMap (ops name)).length ≤ n)
    (d : Disk σ κ α) :
    (kill name commit saves n d).visible = saves.foldl commit d.visible := by
  rw [kill, List.take_of_length_le h]
  clear h
  induction saves generalizing d with
  | nil => rfl
  | cons a saves ih =>
    rw [List.flatMap_cons, List.foldl_append, ih, (foldl_ops name commit a d).1]
    rfl

end AtomicSave
