import MqttBench.Lib.NumberText

/-!
# Text and integers of Python

`str.strip` and `int` of a text whose digits are ASCII.

* `int_toDigits` — a number is read back from its digits.
-/

namespace PyText

open NumberText

/-! ## The functions -/

/-- `sys.get_int_max_str_digits()`. -/
def digitLimit : ℕ := 4300

/-- `str.isspace()` of a character. -/
def isSpace (c : Char) : Bool :=
  (9 ≤ c.toNat && c.toNat ≤ 13) || (28 ≤ c.toNat && c.toNat ≤ 32) || c.toNat == 0x85 ||
    c.toNat == 0xa0 || c.toNat == 0x1680 || (0x2000 ≤ c.toNat && c.toNat ≤ 0x200a) ||
    c.toNat == 0x2028 || c.toNat == 0x2029 || c.toNat == 0x202f || c.toNat == 0x205f ||
    c.toNat == 0x3000

/-- `s.strip()`. -/
def strip (s : List Char) : List Char :=
  ((s.dropWhile isSpace).reverse.dropWhile isSpace).reverse

/-- `int(s)` of a word. -/
def wordInt (s : List Char) : Option ℤ :=
  let (sign, s) : ℤ × List Char := match s with
    | '+' :: s => (1, s)
    | '-' :: s => (-1, s)
    | s => (1, s)
  let digits := s.filter Char.isDigit
  if (s.splitOn '_').all (fun group => !group.isEmpty && group.all Char.isDigit) &&
      digits.length ≤ digitLimit then
    some (sign * (Nat.ofDigitChars 10 digits 0 : ℕ))
  else none

/-- `int(s)`. -/
def int (s : List Char) : Option ℤ := wordInt (strip s)

/-! ## Reading back -/

/-- No white space is between 33 and 127. -/
theorem isSpace_plain {c : Char} (hlo : 33 ≤ c.toNat) (hhi : c.toNat < 128) :
    isSpace c = false := by
  by_contra h
  simp only [isSpace, Bool.not_eq_false, Bool.or_eq_true, Bool.and_eq_true, decide_eq_true_eq,
    beq_iff_eq] at h
  omega

theorem wordInt_toDigits {n : ℕ} (h : (Nat.toDigits 10 n).length ≤ digitLimit) :
    wordInt (Nat.toDigits 10 n) = some (n : ℤ) := by
  have hdigits : ∀ c ∈ Nat.toDigits 10 n, c.isDigit = true := fun c hc => isDigit_of_mem hc
  have hfilter : (Nat.toDigits 10 n).filter Char.isDigit = Nat.toDigits 10 n :=
    List.filter_eq_self.2 hdigits
  have hgroups : (Nat.toDigits 10 n).splitOn '_' = [Nat.toDigits 10 n] :=
    List.splitOnP_eq_singleton fun c hc => by
      rw [beq_eq_false_iff_ne]
      rintro rfl
      exact absurd (hdigits '_' hc) (by decide)
  have hall : ([Nat.toDigits 10 n].all fun group => !group.isEmpty && group.all Char.isDigit) =
      true := by
    have hne : Nat.toDigits 10 n ≠ [] := Nat.toDigits_ne_nil
    simpa [hne] using hdigits
  have hsign : (match Nat.toDigits 10 n with
      | '+' :: s => ((1 : ℤ), s)
      | '-' :: s => (-1, s)
      | s => (1, s)) = (1, Nat.toDigits 10 n) := by
    split
    · next heq => exact absurd (hdigits '+' (heq ▸ List.mem_cons_self)) (by decide)
    · next heq => exact absurd (hdigits '-' (heq ▸ List.mem_cons_self)) (by decide)
    · rfl
  unfold wordInt
  simp only [hsign, hfilter, hgroups, hall, Bool.true_and, decide_eq_true_eq]
  rw [if_pos h, Nat.ofDigitChars_ten_toDigits, one_mul]

/-- White space around a text that begins and ends with something else. -/
theorem strip_padded {ws xs ws' : List Char} (hws : ∀ c ∈ ws, isSpace c = true)
    (hhead : ∀ c ∈ xs.head?, isSpace c = false) (hlast : ∀ c ∈ xs.getLast?, isSpace c = false)
    (hws' : ∀ c ∈ ws', isSpace c = true) : strip (ws ++ (xs ++ ws')) = xs := by
  have hdrop : ∀ (ws xs : List Char), (∀ c ∈ ws, isSpace c = true) →
      (∀ c ∈ xs.head?, isSpace c = false) → (ws ++ xs).dropWhile isSpace = xs := by
    intro ws xs hws hhead
    rw [List.dropWhile_append_of_pos hws]
    cases xs with
    | nil => rfl
    | cons c xs => rw [List.dropWhile_cons_of_neg (by simp [hhead c rfl])]
  cases xs with
  | nil =>
    rw [strip, List.nil_append, List.dropWhile_eq_nil_iff.2 fun c hc =>
      (List.mem_append.1 hc).elim (hws c) (hws' c)]
    rfl
  | cons c xs =>
    rw [strip, hdrop ws _ hws (by simpa using hhead), List.reverse_append,
      hdrop _ _ (fun d hd => hws' d (List.mem_reverse.1 hd)) (by rwa [List.head?_reverse]),
      List.reverse_reverse]

theorem strip_of_plain {s : List Char} (hhead : ∀ c ∈ s.head?, isSpace c = false)
    (hlast : ∀ c ∈ s.getLast?, isSpace c = false) : strip s = s := by
  have hnone : ∀ c ∈ ([] : List Char), isSpace c = true := nofun
  have h := strip_padded hnone hhead hlast hnone
  rwa [List.nil_append, List.append_nil] at h

theorem strip_eq {c d : Char} {s : List Char} (hc : isSpace c = false)
    (hd : isSpace d = false) : strip (c :: (s ++ [d])) = c :: (s ++ [d]) := by
  have hlast : (c :: (s ++ [d])).getLast? = some d := by
    rw [← List.cons_append, List.getLast?_concat]
  exact strip_of_plain (fun e he => Option.some.inj he ▸ hc)
    fun e he => Option.some.inj (hlast.symm.trans he) ▸ hd

theorem digit_not_space {n : ℕ} {c : Char} (h : c ∈ Nat.toDigits 10 n) : isSpace c = false := by
  have hcode := toNat_of_mem_toString (v := (n : ℤ)) (c := c) (by rwa [toList_toString])
  exact isSpace_plain (by omega) (by omega)

theorem strip_toDigits (n : ℕ) : strip (Nat.toDigits 10 n) = Nat.toDigits 10 n :=
  strip_of_plain (fun _ hc => digit_not_space (List.mem_of_head? hc))
    fun _ hc => digit_not_space (List.mem_of_getLast? hc)

theorem int_toDigits {n : ℕ} (h : (Nat.toDigits 10 n).length ≤ digitLimit) :
    int (Nat.toDigits 10 n) = some (n : ℤ) := by
  rw [int, strip_toDigits, wordInt_toDigits h]

theorem int_number {n : ℕ} (h : n < 2 ^ 64) : int (Nat.toDigits 10 n) = some (n : ℤ) :=
  int_toDigits ((length_toDigits_le h).trans (by decide))

/-- What is in a joined list is the separator or in a part. -/
theorem mem_intercalate {sep : Char} {parts : List (List Char)} {c : Char}
    (h : c ∈ [sep].intercalate parts) : c = sep ∨ ∃ part ∈ parts, c ∈ part := by
  induction parts with
  | nil => cases h
  | cons part parts ih =>
    cases parts with
    | nil =>
      rw [List.intercalate_singleton] at h
      exact .inr ⟨part, List.mem_singleton_self _, h⟩
    | cons part' parts =>
      rw [List.intercalate_cons_cons, List.mem_append, List.mem_append, List.mem_singleton] at h
      rcases h with (h | h) | h
      · exact .inr ⟨part, List.mem_cons_self, h⟩
      · exact .inl h
      · exact (ih h).imp id fun ⟨q, hq, hc⟩ => ⟨q, List.mem_cons_of_mem _ hq, hc⟩

end PyText
