import Mathlib

/-!
# Numbers and words in text

What a program reads back of numbers that another one has written, next to other text.

* `leading` — the digits at the head of a text, as a number (`leading_toDigits`).
* `scan` — a number behind a sign (`scan_toString`).
* `words` — the pieces between separators, without empty ones (`words_intercalate`).
-/

namespace NumberText

/-! ## Numbers -/

/-- The digits at the head, as a number, and what follows them. -/
def leading (s : List Char) : ℕ × List Char :=
  (Nat.ofDigitChars 10 (s.takeWhile Char.isDigit) 0, s.dropWhile Char.isDigit)

/-- No digit comes first. -/
def EndsNumber (s : List Char) : Prop := ∀ c ∈ s.head?, c.isDigit = false

theorem endsNumber_nil : EndsNumber [] := fun _ hc => by cases hc

theorem isDigit_of_mem {n : ℕ} {c : Char} (h : c ∈ Nat.toDigits 10 n) : c.isDigit = true :=
  Nat.isDigit_of_mem_toDigits (by decide) le_rfl h

theorem length_toDigits_le {n : ℕ} (h : n < 2 ^ 64) : (Nat.toDigits 10 n).length ≤ 20 :=
  (Nat.length_toDigits_le_iff (by decide) (by decide)).2 (h.trans (by decide))

theorem leading_toDigits (n : ℕ) {rest : List Char} (h : EndsNumber rest) :
    leading (Nat.toDigits 10 n ++ rest) = (n, rest) := by
  have hdigits : ∀ c ∈ Nat.toDigits 10 n, c.isDigit = true := fun c hc => isDigit_of_mem hc
  have htake : rest.takeWhile Char.isDigit = [] ∧ rest.dropWhile Char.isDigit = rest := by
    cases rest with
    | nil => exact ⟨rfl, rfl⟩
    | cons c rest =>
      have hc : c.isDigit = false := h c rfl
      simp [hc]
  unfold leading
  rw [List.takeWhile_append_of_pos hdigits, List.dropWhile_append_of_pos hdigits, htake.1, htake.2,
    List.append_nil, Nat.ofDigitChars_ten_toDigits]

/-- A number, perhaps behind a sign: its value and what follows it. -/
def scan (s : List Char) : ℤ × List Char :=
  match s with
  | '-' :: s => (-(leading s).1, (leading s).2)
  | '+' :: s => ((leading s).1, (leading s).2)
  | s => ((leading s).1, (leading s).2)

/-- A number has a sign, or only digits. -/
theorem toList_toString (v : ℤ) : (toString v).toList =
    match v with
    | .ofNat n => Nat.toDigits 10 n
    | .negSucc n => '-' :: Nat.toDigits 10 (n + 1) := by
  cases v with
  | ofNat n => exact Nat.toList_repr
  | negSucc n =>
    show ("-" ++ (n + 1).repr).toList = _
    rw [String.toList_append, Nat.toList_repr]
    rfl

theorem toList_toString_ne_nil (v : ℤ) : (toString v).toList ≠ [] := by
  rw [toList_toString]
  cases v with
  | ofNat n => exact Nat.toDigits_ne_nil
  | negSucc n => exact List.cons_ne_nil _ _

/-- The code of a character of a number: a sign or a digit. -/
theorem toNat_of_mem_toString {v : ℤ} {c : Char} (h : c ∈ (toString v).toList) :
    c.toNat = 45 ∨ 48 ≤ c.toNat ∧ c.toNat ≤ 57 := by
  have hdigit : ∀ n, c ∈ Nat.toDigits 10 n → 48 ≤ c.toNat ∧ c.toNat ≤ 57 := by
    intro n hc
    have hc := isDigit_of_mem hc
    unfold Char.isDigit at hc
    simp only [Bool.and_eq_true, decide_eq_true_eq] at hc
    exact ⟨UInt32.le_iff_toNat_le.1 hc.1, UInt32.le_iff_toNat_le.1 hc.2⟩
  rw [toList_toString] at h
  cases v with
  | ofNat n => exact .inr (hdigit n h)
  | negSucc n =>
    obtain rfl | h := List.mem_cons.1 h
    · exact .inl rfl
    · exact .inr (hdigit (n + 1) h)

theorem scan_toDigits (n : ℕ) {rest : List Char} (h : EndsNumber rest) :
    scan (Nat.toDigits 10 n ++ rest) = ((n : ℤ), rest) := by
  obtain ⟨c, s, hcs⟩ := List.exists_cons_of_ne_nil (Nat.toDigits_ne_nil (b := 10) (n := n))
  have hc : c.isDigit = true := isDigit_of_mem (n := n) (hcs ▸ List.mem_cons_self)
  have hlead := leading_toDigits n h
  rw [hcs, List.cons_append] at hlead ⊢
  have hsign : c ≠ '-' ∧ c ≠ '+' := by
    constructor <;> (rintro rfl; exact absurd hc (by decide))
  rw [scan]
  · rw [hlead]
  · exact fun s hs => hsign.1 (List.cons.inj hs).1
  · exact fun s hs => hsign.2 (List.cons.inj hs).1

/-- **A number that was written is read back.** -/
theorem scan_toString (v : ℤ) {rest : List Char} (h : EndsNumber rest) :
    scan ((toString v).toList ++ rest) = (v, rest) := by
  rw [toList_toString]
  cases v with
  | ofNat n => exact scan_toDigits n h
  | negSucc n =>
    simp only [List.cons_append, scan, leading_toDigits _ h]
    rfl

/-! ## Words -/

/-- The pieces between separators, without the empty ones. -/
def words (isSep : Char → Bool) (s : List Char) : List (List Char) :=
  (s.splitOnP isSep).filter fun w => !w.isEmpty

variable {isSep : Char → Bool}

/-- A separator ends the words before it. -/
theorem words_append_cons (xs ys : List Char) {sep : Char} (hsep : isSep sep = true) :
    words isSep (xs ++ sep :: ys) = words isSep xs ++ words isSep ys := by
  unfold words
  rw [List.splitOnP_append_cons xs ys hsep, List.filter_append]

/-- Text without separators is one word. -/
theorem words_singleton {w : List Char} (hne : w ≠ []) (h : ∀ c ∈ w, isSep c = false) :
    words isSep w = [w] := by
  unfold words
  rw [List.splitOnP_eq_singleton h, List.filter_singleton]
  cases w with
  | nil => exact absurd rfl hne
  | cons c w => rfl

/-- **Words that are joined are found again**, whichever separator joins them. -/
theorem words_intercalate {sep : Char} (hsep : isSep sep = true) {ws : List (List Char)}
    (h : ∀ w ∈ ws, w ≠ [] ∧ ∀ c ∈ w, isSep c = false) :
    words isSep ([sep].intercalate ws) = ws := by
  induction ws with
  | nil => rfl
  | cons w ws ih =>
    obtain ⟨hne, hw⟩ := h w List.mem_cons_self
    have hrest := ih fun w' hw' => h w' (List.mem_cons_of_mem w hw')
    cases ws with
    | nil => simpa using words_singleton hne hw
    | cons w' ws =>
      rw [List.intercalate_cons_cons, List.append_assoc, List.singleton_append,
        words_append_cons _ _ hsep, words_singleton hne hw, hrest]
      rfl

end NumberText
