import Mathlib

/-!
# Python data

The values that Python stores as JSON, `==` between them, and what `json.loads` reads of
what `json.dumps` wrote: the same value, with a list in the place of each tuple.  A finite
float is a rational number, and a dictionary the list of its items.

* `Py.eq` — `==`, by value for numbers and by key for dictionaries.
* `Stored.json`, `Stored.eq_self` — **a value that has no tuples is read back as it was
  written**, and is equal to itself.
-/

namespace PyData

inductive Py
  | none
  | bool (b : Bool)
  | int (n : ℤ)
  | float (q : ℚ)
  | str (s : String)
  | list (xs : List Py)
  | tuple (xs : List Py)
  | dict (es : List (String × Py))

/-- The number that a value stands for in a comparison. -/
def Py.number : Py → Option ℚ
  | .bool b => some (if b then 1 else 0)
  | .int n => some n
  | .float q => some q
  | _ => Option.none

mutual

/-- `a == b`. -/
def Py.eq : Py → Py → Bool
  | .none, .none => true
  | .str a, .str b => a == b
  | .list xs, .list ys => Py.eqs xs ys
  | .tuple xs, .tuple ys => Py.eqs xs ys
  | .dict es, .dict fs => es.length == fs.length && Py.within es fs
  | a, b =>
    match a.number, b.number with
    | some p, some q => p == q
    | _, _ => false

/-- Equality of sequences. -/
def Py.eqs : List Py → List Py → Bool
  | [], [] => true
  | x :: xs, y :: ys => x.eq y && Py.eqs xs ys
  | _, _ => false

/-- Each item is in the other dictionary too. -/
def Py.within : List (String × Py) → List (String × Py) → Bool
  | [], _ => true
  | (k, v) :: es, fs =>
    (match fs.lookup k with
      | some w => v.eq w
      | Option.none => false) && Py.within es fs

end

mutual

/-- `json.loads(json.dumps(v))`. -/
def Py.json : Py → Py
  | .list xs => .list (Py.jsons xs)
  | .tuple xs => .list (Py.jsons xs)
  | .dict es => .dict (Py.jsonItems es)
  | .none => .none
  | .bool b => .bool b
  | .int n => .int n
  | .float q => .float q
  | .str s => .str s

def Py.jsons : List Py → List Py
  | [] => []
  | x :: xs => x.json :: Py.jsons xs

def Py.jsonItems : List (String × Py) → List (String × Py)
  | [] => []
  | (k, v) :: es => (k, v.json) :: Py.jsonItems es

end

/-- What JSON can hold: no tuples, and the keys of each dictionary distinct. -/
inductive Stored : Py → Prop
  | none : Stored .none
  | bool (b : Bool) : Stored (.bool b)
  | int (n : ℤ) : Stored (.int n)
  | float (q : ℚ) : Stored (.float q)
  | str (s : String) : Stored (.str s)
  | list {xs : List Py} : (∀ x ∈ xs, Stored x) → Stored (.list xs)
  | dict {es : List (String × Py)} :
      (es.map Prod.fst).Nodup → (∀ e ∈ es, Stored e.2) → Stored (.dict es)

/-! ## JSON -/

theorem jsons_eq_self {xs : List Py} (h : ∀ x ∈ xs, x.json = x) : Py.jsons xs = xs := by
  induction xs with
  | nil => rfl
  | cons x xs ih =>
    rw [Py.jsons, h x List.mem_cons_self, ih fun y hy => h y (List.mem_cons_of_mem _ hy)]

theorem jsonItems_eq_map (es : List (String × Py)) :
    Py.jsonItems es = es.map fun e => (e.1, e.2.json) := by
  induction es with
  | nil => rfl
  | cons e es ih => rw [Py.jsonItems, ih, List.map_cons]

/-- **What JSON can hold is read back as it was written.** -/
theorem Stored.json {v : Py} (h : Stored v) : v.json = v := by
  induction h with
  | none | bool | int | float | str => rfl
  | list _ ih => rw [Py.json, jsons_eq_self ih]
  | @dict es _ _ ih =>
    rw [Py.json, jsonItems_eq_map]
    have hitems : es.map (fun e => (e.1, e.2.json)) = es.map id :=
      List.map_congr_left fun e he => Prod.ext rfl (ih e he)
    rw [hitems, List.map_id]

/-! ## Equality -/

theorem eqs_self {xs : List Py} (h : ∀ x ∈ xs, x.eq x = true) : Py.eqs xs xs = true := by
  induction xs with
  | nil => rfl
  | cons x xs ih =>
    rw [Py.eqs, h x List.mem_cons_self, ih fun y hy => h y (List.mem_cons_of_mem _ hy)]
    rfl

theorem within_iff {es fs : List (String × Py)} : Py.within es fs = true ↔
    ∀ e ∈ es, ∃ w, fs.lookup e.1 = some w ∧ e.2.eq w = true := by
  induction es with
  | nil => simp [Py.within]
  | cons e es ih =>
    obtain ⟨k, v⟩ := e
    rw [Py.within, Bool.and_eq_true, ih, List.forall_mem_cons]
    apply and_congr_left'
    cases fs.lookup k <;> simp

/-- The value of a key is the one that its item holds. -/
theorem lookup_of_mem {α : Type*} {es : List (String × α)} (h : (es.map Prod.fst).Nodup)
    {e : String × α} (he : e ∈ es) : es.lookup e.1 = some e.2 := by
  induction es with
  | nil => cases he
  | cons f es ih =>
    obtain ⟨hnot, hrest⟩ := List.nodup_cons.1 (show (f.1 :: es.map Prod.fst).Nodup from h)
    rcases List.mem_cons.1 he with rfl | he
    · rw [List.lookup_cons_self]
    · have hne : (e.1 == f.1) = false := by
        rw [beq_eq_false_iff_ne]
        intro heq
        exact hnot (heq ▸ List.mem_map_of_mem he)
      rw [List.lookup_cons, hne]
      exact ih hrest he

theorem lookup_map_snd {α β : Type*} (f : α → β) (es : List (String × α)) (k : String) :
    (es.map fun e => (e.1, f e.2)).lookup k = (es.lookup k).map f := by
  induction es with
  | nil => rfl
  | cons e es ih =>
    rw [List.map_cons, List.lookup_cons, List.lookup_cons, ih]
    cases k == e.1 <;> rfl

theorem mem_of_lookup {α : Type*} {es : List (String × α)} {k : String} {v : α}
    (h : es.lookup k = some v) : (k, v) ∈ es := by
  obtain ⟨front, back, rfl, -⟩ := List.lookup_eq_some_iff.1 h
  exact List.mem_append_right _ List.mem_cons_self

theorem Stored.keys_nodup {es : List (String × Py)} (h : Stored (.dict es)) :
    (es.map Prod.fst).Nodup := by
  cases h with
  | dict hkeys _ => exact hkeys

theorem Stored.of_lookup {es : List (String × Py)} (h : Stored (.dict es)) {k : String} {v : Py}
    (hv : es.lookup k = some v) : Stored v := by
  cases h with
  | dict _ hvalues => exact hvalues _ (mem_of_lookup hv)

theorem Stored.eq_self {v : Py} (h : Stored v) : v.eq v = true := by
  induction h with
  | none => rfl
  | bool b => simp [Py.eq, Py.number]
  | int n => simp [Py.eq, Py.number]
  | float q => simp [Py.eq, Py.number]
  | str s => simp [Py.eq]
  | list _ ih => rw [Py.eq, eqs_self ih]
  | dict hkeys _ ih =>
    rw [Py.eq, within_iff.2 fun e he => ⟨e.2, lookup_of_mem hkeys he, ih e he⟩]
    simp

theorem eqs_ints {ms ns : List ℤ} : Py.eqs (ms.map .int) (ns.map .int) = true ↔ ms = ns := by
  induction ms generalizing ns with
  | nil => cases ns <;> simp [Py.eqs]
  | cons m ms ih => cases ns <;> simp [Py.eqs, Py.eq, Py.number, ih]

end PyData
