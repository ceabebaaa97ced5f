import MqttBench.Lib.PyData

/-!
# The text of JSON values

`json.dumps(v, sort_keys=True)`, with its ASCII escapes.  The text of a float is its `repr`, of
which all that counts is that it is a numeral of its own.

* `text`, `sorted`, `dumps` — the program.
* `unescape_escape` — what a string was escaped from.
* `text_unique` — **a text is that of one value, wherever it ends.**
* `dumps_eq_iff` — two values have the same text when they are the same but for the order of
  their keys.
-/

namespace PyData

/-! ## The program -/

/-- The characters of numbers. -/
def isNumeral (c : Char) : Bool :=
  c.isDigit || c == '-' || c == '+' || c == '.' || c == 'e'

/-- `repr` of a float, a numeral that no other float and no integer has. -/
structure FloatText where
  repr : ℚ → List Char
  injective : Function.Injective repr
  numeral : ∀ q, ∀ c ∈ repr q, isNumeral c = true
  point : ∀ q, ∃ c ∈ repr q, c = '.' ∨ c = 'e'

/-- Four hexadecimal digits. -/
def hex4 (n : ℕ) : List Char :=
  [Nat.digitChar (n / 4096 % 16), Nat.digitChar (n / 256 % 16), Nat.digitChar (n / 16 % 16),
    Nat.digitChar (n % 16)]

/-- An escaped code unit. -/
def escapeUnit (n : ℕ) : List Char := '\\' :: 'u' :: hex4 n

/-- A character of a string.  Beyond the first plane it is a surrogate pair. -/
def escape (c : Char) : List Char :=
  if c = '\x22' then ['\\', '\x22']
  else if c = '\\' then ['\\', '\\']
  else if c = '\n' then ['\\', 'n']
  else if c = '\r' then ['\\', 'r']
  else if c = '\t' then ['\\', 't']
  else if c = '\x0c' then ['\\', 'f']
  else if c = '\x08' then ['\\', 'b']
  else if 32 ≤ c.toNat ∧ c.toNat ≤ 126 then [c]
  else if c.toNat < 0x10000 then escapeUnit c.toNat
  else
    escapeUnit (0xD800 + (c.toNat - 0x10000) / 0x400) ++
      escapeUnit (0xDC00 + (c.toNat - 0x10000) % 0x400)

def quote (s : String) : List Char := '\x22' :: (s.toList.flatMap escape ++ ['\x22'])

section Text

variable (F : FloatText)

mutual

/-- The text of a value, its keys in the order in which they are. -/
def text : Py → List Char
  | .none => ['n', 'u', 'l', 'l']
  | .bool true => ['t', 'r', 'u', 'e']
  | .bool false => ['f', 'a', 'l', 's', 'e']
  | .int n => n.repr.toList
  | .float q => F.repr q
  | .str s => quote s
  | .list xs => '[' :: texts xs
  | .tuple xs => '[' :: texts xs
  | .dict es => '{' :: textItems es

def texts : List Py → List Char
  | [] => [']']
  | x :: xs => text x ++ moreTexts xs

def moreTexts : List Py → List Char
  | [] => [']']
  | x :: xs => ',' :: ' ' :: (text x ++ moreTexts xs)

def textItems : List (String × Py) → List Char
  | [] => ['}']
  | (k, v) :: es => quote k ++ (':' :: ' ' :: (text v ++ moreItems es))

def moreItems : List (String × Py) → List Char
  | [] => ['}']
  | (k, v) :: es => ',' :: ' ' :: (quote k ++ (':' :: ' ' :: (text v ++ moreItems es)))

end

end Text

mutual

/-- The keys of each dictionary in order, and a list in the place of each tuple. -/
def Py.sorted : Py → Py
  | .list xs => .list (Py.sorteds xs)
  | .tuple xs => .list (Py.sorteds xs)
  | .dict es => .dict ((Py.sortedItems es).mergeSort fun e f => e.1 ≤ f.1)
  | .none => .none
  | .bool b => .bool b
  | .int n => .int n
  | .float q => .float q
  | .str s => .str s

def Py.sorteds : List Py → List Py
  | [] => []
  | x :: xs => x.sorted :: Py.sorteds xs

def Py.sortedItems : List (String × Py) → List (String × Py)
  | [] => []
  | (k, v) :: es => (k, v.sorted) :: Py.sortedItems es

end

/-- `json.dumps(v, sort_keys=True)`. -/
def dumps (F : FloatText) (v : Py) : String := String.ofList (text F v.sorted)

/-! ## Strings -/

def hexVal (c : Char) : ℕ := if c.toNat < 58 then c.toNat - 48 else c.toNat - 87

def unhex (a b c d : Char) : ℕ := ((hexVal a * 16 + hexVal b) * 16 + hexVal c) * 16 + hexVal d

/-- The character that a text begins with, escaped or not. -/
def unescape : List Char → Option (Char × List Char)
  | '\\' :: 'n' :: rest => some ('\n', rest)
  | '\\' :: 'r' :: rest => some ('\r', rest)
  | '\\' :: 't' :: rest => some ('\t', rest)
  | '\\' :: 'f' :: rest => some ('\x0c', rest)
  | '\\' :: 'b' :: rest => some ('\x08', rest)
  | '\\' :: 'u' :: a :: b :: c :: d :: rest =>
    if 0xD800 ≤ unhex a b c d ∧ unhex a b c d < 0xDC00 then
      match rest with
      | '\\' :: 'u' :: a' :: b' :: c' :: d' :: rest =>
        some (Char.ofNat (0x10000 + (unhex a b c d - 0xD800) * 0x400 +
          (unhex a' b' c' d' - 0xDC00)), rest)
      | _ => none
    else some (Char.ofNat (unhex a b c d), rest)
  | '\\' :: c :: rest => some (c, rest)
  | c :: rest => some (c, rest)
  | [] => none

theorem hexVal_digitChar : ∀ d < 16, hexVal (Nat.digitChar d) = d := by decide

theorem unhex_hex4 {n : ℕ} (h : n < 0x10000) :
    unhex (Nat.digitChar (n / 4096 % 16)) (Nat.digitChar (n / 256 % 16))
      (Nat.digitChar (n / 16 % 16)) (Nat.digitChar (n % 16)) = n := by
  have hdigit : ∀ m, hexVal (Nat.digitChar (m % 16)) = m % 16 := fun m =>
    hexVal_digitChar _ (Nat.mod_lt _ (by decide))
  simp only [unhex, hdigit]
  omega

theorem unescape_plain {c : Char} (h : c ≠ '\\') (rest : List Char) :
    unescape (c :: rest) = some (c, rest) := by
  unfold unescape
  split <;> simp_all

/-- A unit outside of the high surrogates is a character. -/
theorem unescape_unit {n : ℕ} (hn : n < 0x10000) (hhigh : ¬ (0xD800 ≤ n ∧ n < 0xDC00))
    (rest : List Char) : unescape (escapeUnit n ++ rest) = some (Char.ofNat n, rest) := by
  simp only [escapeUnit, hex4, List.cons_append, List.nil_append, unescape, unhex_hex4 hn]
  rw [if_neg hhigh]

/-- A high surrogate and a low one are a character. -/
theorem unescape_pair {n m : ℕ} (hn : 0xD800 ≤ n ∧ n < 0xDC00) (hm : m < 0x10000)
    (rest : List Char) : unescape (escapeUnit n ++ (escapeUnit m ++ rest)) =
      some (Char.ofNat (0x10000 + (n - 0xD800) * 0x400 + (m - 0xDC00)), rest) := by
  have hn' : n < 0x10000 := by omega
  simp only [escapeUnit, hex4, List.cons_append, List.nil_append, unescape, unhex_hex4 hn',
    unhex_hex4 hm]
  rw [if_pos hn]

/-- **What a character was escaped to is read back.** -/
theorem unescape_escape (c : Char) (rest : List Char) :
    unescape (escape c ++ rest) = some (c, rest) := by
  unfold escape
  split
  · next h => subst h; rfl
  split
  · next h => subst h; rfl
  split
  · next h => subst h; rfl
  split
  · next h => subst h; rfl
  split
  · next h => subst h; rfl
  split
  · next h => subst h; rfl
  split
  · next h => subst h; rfl
  split
  · exact unescape_plain ‹_› rest
  split
  · next h =>
    have hvalid : c.toNat < 0xD800 ∨ 0xDFFF < c.toNat ∧ c.toNat < 0x110000 := c.valid
    rw [unescape_unit h (by omega), Char.ofNat_toNat]
  · next h =>
    have hvalid : c.toNat < 0xD800 ∨ 0xDFFF < c.toNat ∧ c.toNat < 0x110000 := c.valid
    have hback : 0x10000 + (0xD800 + (c.toNat - 0x10000) / 0x400 - 0xD800) * 0x400 +
        (0xDC00 + (c.toNat - 0x10000) % 0x400 - 0xDC00) = c.toNat := by omega
    rw [List.append_assoc, unescape_pair (by omega) (by omega), hback, Char.ofNat_toNat]

/-- No character is escaped to a quotation mark. -/
theorem escape_ne (c : Char) (rest r : List Char) : escape c ++ rest ≠ '\x22' :: r := by
  intro h
  have hread := unescape_escape c rest
  rw [h, unescape_plain (by decide)] at hread
  obtain rfl : '\x22' = c := congrArg Prod.fst (Option.some.inj hread)
  exact absurd h (by simp [escape])

theorem escapes_unique {cs ds r r' : List Char}
    (h : cs.flatMap escape ++ '\x22' :: r = ds.flatMap escape ++ '\x22' :: r') :
    cs = ds ∧ r = r' := by
  induction cs generalizing ds with
  | nil =>
    cases ds with
    | nil => exact ⟨rfl, List.tail_eq_of_cons_eq h⟩
    | cons d ds =>
      rw [List.flatMap_cons, List.append_assoc] at h
      exact absurd h.symm (escape_ne d _ r)
  | cons c cs ih =>
    cases ds with
    | nil =>
      rw [List.flatMap_cons, List.append_assoc] at h
      exact absurd h (escape_ne c _ r')
    | cons d ds =>
      rw [List.flatMap_cons, List.flatMap_cons, List.append_assoc, List.append_assoc] at h
      have hread := congrArg unescape h
      rw [unescape_escape, unescape_escape] at hread
      obtain ⟨hchar, hrest⟩ := Prod.ext_iff.1 (Option.some.inj hread)
      obtain ⟨hcs, hr⟩ := ih hrest
      exact ⟨List.cons_eq_cons.2 ⟨hchar, hcs⟩, hr⟩

theorem quote_unique {s t : String} {r r' : List Char} (h : quote s ++ r = quote t ++ r') :
    s = t ∧ r = r' := by
  simp only [quote, List.cons_append, List.append_assoc, List.cons.injEq, true_and,
    List.nil_append] at h
  obtain ⟨hchars, hr⟩ := escapes_unique h
  exact ⟨String.toList_inj.1 hchars, hr⟩

/-! ## Numbers -/

/-- What a text is followed by does not go on with a number. -/
def Ends (r : List Char) : Prop := ∀ c ∈ r.head?, isNumeral c = false

theorem ends_nil : Ends [] := fun _ hc => by cases hc

theorem ends_cons {c : Char} (h : isNumeral c = false) (r : List Char) : Ends (c :: r) :=
  fun _ hc => Option.some.inj hc ▸ h

theorem takeWhile_numeral {xs r : List Char} (hxs : ∀ c ∈ xs, isNumeral c = true) (hr : Ends r) :
    (xs ++ r).takeWhile isNumeral = xs := by
  rw [List.takeWhile_append_of_pos hxs]
  cases r with
  | nil => simp
  | cons c r => simp [hr c rfl]

/-- A number ends where its characters end. -/
theorem numeral_unique {xs ys r r' : List Char} (hxs : ∀ c ∈ xs, isNumeral c = true)
    (hys : ∀ c ∈ ys, isNumeral c = true) (hr : Ends r) (hr' : Ends r') (h : xs ++ r = ys ++ r') :
    xs = ys ∧ r = r' := by
  have hsame : xs = ys := by
    rw [← takeWhile_numeral hxs hr, h, takeWhile_numeral hys hr']
  exact ⟨hsame, List.append_cancel_left (hsame ▸ h)⟩

/-- The characters of an integer. -/
theorem digits_int (n : ℤ) : ∀ c ∈ n.repr.toList, c.isDigit = true ∨ c = '-' := by
  have hnat : ∀ m : ℕ, ∀ c ∈ m.repr.toList, c.isDigit = true := by
    intro m c hc
    rw [Nat.toList_repr] at hc
    exact Nat.isDigit_of_mem_toDigits (by decide) le_rfl hc
  intro c hc
  rw [Int.repr_eq_if] at hc
  split at hc
  · exact .inl (hnat _ c hc)
  · rw [String.toList_append] at hc
    rcases List.mem_append.1 hc with hc | hc
    · exact .inr (List.mem_singleton.1 hc)
    · exact .inl (hnat _ c hc)

theorem int_ne_nil (n : ℤ) : n.repr.toList ≠ [] := by
  rw [Int.repr_eq_if]
  split
  · rw [Nat.toList_repr]
    exact Nat.toDigits_ne_nil
  · rw [String.toList_append]
    exact List.append_ne_nil_of_left_ne_nil (by decide) _

theorem numeral_int (n : ℤ) : ∀ c ∈ n.repr.toList, isNumeral c = true := by
  intro c hc
  rcases digits_int n c hc with h | h <;> simp [isNumeral, h]

/-- No integer is written as a float. -/
theorem int_ne_float (F : FloatText) (n : ℤ) (q : ℚ) : n.repr.toList ≠ F.repr q := by
  intro h
  obtain ⟨c, hc, hpoint⟩ := F.point q
  rcases digits_int n c (h ▸ hc) with hdigit | rfl
  · rcases hpoint with rfl | rfl <;> exact absurd hdigit (by decide)
  · exact hpoint.elim (by decide) (by decide)

/-- A text for each rational number, where no float is at hand: its numerator, a point and its
denominator. -/
def FloatText.fraction : FloatText where
  repr q := q.num.repr.toList ++ '.' :: (q.den : ℤ).repr.toList
  injective := by
    have hpoint : ∀ n : ℤ, '.' ∉ n.repr.toList := by
      intro n hmem
      rcases digits_int n '.' hmem with h | h <;> exact absurd h (by decide)
    intro p q h
    obtain ⟨hnum, -, hden⟩ := (List.append_cons_inj_of_notMem (hpoint _) (hpoint _)).1 h
    refine Rat.ext (Int.repr_injective (String.toList_inj.1 hnum)) ?_
    exact_mod_cast Int.repr_injective (String.toList_inj.1 hden)
  numeral q c hc := by
    rcases List.mem_append.1 hc with hc | hc
    · exact numeral_int _ c hc
    · rcases List.mem_cons.1 hc with rfl | hc
      · rfl
      · exact numeral_int _ c hc
  point q := ⟨'.', by simp, .inl rfl⟩

/-! ## Values -/

/-- What a value is, as far as its first character tells. -/
def Py.mark : Py → ℕ
  | .none => 0
  | .bool _ => 1
  | .int _ | .float _ => 2
  | .str _ => 3
  | .list _ | .tuple _ => 4
  | .dict _ => 5

def classify (c : Char) : ℕ :=
  if c = 'n' then 0
  else if c = 't' ∨ c = 'f' then 1
  else if isNumeral c = true then 2
  else if c = '\x22' then 3
  else if c = '[' then 4
  else if c = '{' then 5
  else 6

theorem classify_numeral {c : Char} (h : isNumeral c = true) : classify c = 2 := by
  have hne : c ≠ 'n' ∧ c ≠ 't' ∧ c ≠ 'f' := by
    refine ⟨?_, ?_, ?_⟩ <;> rintro rfl <;> exact absurd h (by decide)
  simp [classify, h, hne]

theorem FloatText.ne_nil (F : FloatText) (q : ℚ) : F.repr q ≠ [] := by
  obtain ⟨c, hc, -⟩ := F.point q
  exact List.ne_nil_of_mem hc

theorem text_head (F : FloatText) (v : Py) :
    ∃ c rest, text F v = c :: rest ∧ classify c = v.mark := by
  have hnumber : ∀ xs : List Char, xs ≠ [] → (∀ c ∈ xs, isNumeral c = true) →
      ∃ c rest, xs = c :: rest ∧ classify c = 2 := by
    intro xs hne hxs
    obtain ⟨c, rest, rfl⟩ := List.exists_cons_of_ne_nil hne
    exact ⟨c, rest, rfl, classify_numeral (hxs c List.mem_cons_self)⟩
  cases v with
  | none => exact ⟨_, _, rfl, rfl⟩
  | bool b => cases b <;> exact ⟨_, _, rfl, rfl⟩
  | int n => exact hnumber _ (int_ne_nil n) (numeral_int n)
  | float q => exact hnumber _ (F.ne_nil q) (F.numeral q)
  | str s => exact ⟨_, _, rfl, rfl⟩
  | list xs | tuple xs => exact ⟨_, _, rfl, rfl⟩
  | dict es => exact ⟨_, _, rfl, rfl⟩

/-- Two values with one text are of one kind. -/
theorem mark_eq {F : FloatText} {v w : Py} {r r' : List Char}
    (h : text F v ++ r = text F w ++ r') : v.mark = w.mark := by
  obtain ⟨c, rest, hv, hc⟩ := text_head F v
  obtain ⟨d, rest', hw, hd⟩ := text_head F w
  rw [hv, hw] at h
  rw [← hc, ← hd, (List.cons_eq_cons.1 h).1]

/-- The scalars. -/
theorem scalar_unique {F : FloatText} {v w : Py} {r r' : List Char} (hv : v.mark < 4)
    (hr : Ends r) (hr' : Ends r') (h : text F v ++ r = text F w ++ r') :
    v.json = w.json ∧ r = r' := by
  have hmark := mark_eq h
  cases v with
  | none =>
    cases w with
    | none => exact ⟨rfl, List.append_cancel_left h⟩
    | _ => cases hmark
  | bool b =>
    cases w with
    | bool c =>
      cases b <;> cases c
      · exact ⟨rfl, List.append_cancel_left h⟩
      · cases (List.cons_eq_cons.1 h).1
      · cases (List.cons_eq_cons.1 h).1
      · exact ⟨rfl, List.append_cancel_left h⟩
    | _ => cases hmark
  | int n =>
    cases w with
    | int m =>
      obtain ⟨htext, hrest⟩ := numeral_unique (numeral_int n) (numeral_int m) hr hr' h
      rw [Int.repr_injective (String.toList_inj.1 htext)]
      exact ⟨rfl, hrest⟩
    | float q =>
      exact absurd (numeral_unique (numeral_int n) (F.numeral q) hr hr' h).1 (int_ne_float F n q)
    | _ => cases hmark
  | float p =>
    cases w with
    | int m =>
      exact absurd (numeral_unique (F.numeral p) (numeral_int m) hr hr' h).1.symm
        (int_ne_float F m p)
    | float q =>
      obtain ⟨htext, hrest⟩ := numeral_unique (F.numeral p) (F.numeral q) hr hr' h
      rw [F.injective htext]
      exact ⟨rfl, hrest⟩
    | _ => cases hmark
  | str s =>
    cases w with
    | str t =>
      obtain ⟨rfl, hrest⟩ := quote_unique h
      exact ⟨rfl, hrest⟩
    | _ => cases hmark
  | list | tuple | dict => exact absurd hv (by simp [Py.mark])

theorem ends_moreTexts (F : FloatText) (xs : List Py) (r : List Char) :
    Ends (moreTexts F xs ++ r) := by
  cases xs <;> exact ends_cons (by decide) _

theorem ends_moreItems (F : FloatText) (es : List (String × Py)) (r : List Char) :
    Ends (moreItems F es ++ r) := by
  cases es <;> exact ends_cons (by decide) _

/-- No value begins like the end of a list. -/
theorem text_ne_close (F : FloatText) (v : Py) (rest r : List Char) :
    text F v ++ rest ≠ ']' :: r := by
  intro h
  obtain ⟨c, tail, hv, hc⟩ := text_head F v
  rw [hv] at h
  rw [(List.cons_eq_cons.1 h).1] at hc
  have hmark : v.mark ≤ 5 := by cases v <;> simp [Py.mark]
  have hclose : classify ']' = 6 := by decide
  omega

/-- The texts of two lists go on as their tails do. -/
theorem moreTexts_of_texts (F : FloatText) {xs ys : List Py} {r r' : List Char}
    (h : texts F xs ++ r = texts F ys ++ r') : moreTexts F xs ++ r = moreTexts F ys ++ r' := by
  cases xs with
  | nil =>
    cases ys with
    | nil => exact h
    | cons y ys =>
      rw [texts, texts, List.append_assoc] at h
      exact absurd h.symm (text_ne_close F y _ _)
  | cons x xs =>
    cases ys with
    | nil =>
      rw [texts, texts, List.append_assoc] at h
      exact absurd h (text_ne_close F x _ _)
    | cons y ys => exact congrArg (fun text => ',' :: ' ' :: text) h

theorem moreItems_of_textItems (F : FloatText) {es fs : List (String × Py)} {r r' : List Char}
    (h : textItems F es ++ r = textItems F fs ++ r') :
    moreItems F es ++ r = moreItems F fs ++ r' := by
  cases es with
  | nil =>
    cases fs with
    | nil => exact h
    | cons f fs => exact nomatch (List.cons_eq_cons.1 h).1
  | cons e es =>
    cases fs with
    | nil => exact nomatch (List.cons_eq_cons.1 h).1
    | cons f fs => exact congrArg (fun text => ',' :: ' ' :: text) h

mutual

/-- **A text is that of one value, wherever it ends.** -/
theorem text_unique (F : FloatText) : ∀ (v w : Py) {r r' : List Char}, Ends r → Ends r' →
    text F v ++ r = text F w ++ r' → v.json = w.json ∧ r = r'
  | .none, _, _, _, hr, hr', h => scalar_unique (by decide) hr hr' h
  | .bool _, _, _, _, hr, hr', h => scalar_unique (by simp [Py.mark]) hr hr' h
  | .int _, _, _, _, hr, hr', h => scalar_unique (by simp [Py.mark]) hr hr' h
  | .float _, _, _, _, hr, hr', h => scalar_unique (by simp [Py.mark]) hr hr' h
  | .str _, _, _, _, hr, hr', h => scalar_unique (by simp [Py.mark]) hr hr' h
  | .list xs, w, r, r', _, _, h | .tuple xs, w, r, r', _, _, h => by
    have hmark := mark_eq h
    cases w with
    | list ys | tuple ys =>
      have hmore := moreTexts_of_texts F (List.cons_eq_cons.1 h).2
      obtain ⟨hsame, hrest⟩ := moreTexts_unique F xs ys hmore
      exact ⟨congrArg Py.list hsame, hrest⟩
    | _ => cases hmark
  | .dict es, w, r, r', _, _, h => by
    have hmark := mark_eq h
    cases w with
    | dict fs =>
      have hmore := moreItems_of_textItems F (List.cons_eq_cons.1 h).2
      obtain ⟨hsame, hrest⟩ := moreItems_unique F es fs hmore
      exact ⟨congrArg Py.dict hsame, hrest⟩
    | _ => cases hmark

theorem moreTexts_unique (F : FloatText) : ∀ (xs ys : List Py) {r r' : List Char},
    moreTexts F xs ++ r = moreTexts F ys ++ r' → Py.jsons xs = Py.jsons ys ∧ r = r'
  | [], [], _, _, h => ⟨rfl, (List.cons_eq_cons.1 h).2⟩
  | [], _ :: _, _, _, h => nomatch (List.cons_eq_cons.1 h).1
  | _ :: _, [], _, _, h => nomatch (List.cons_eq_cons.1 h).1
  | x :: xs, y :: ys, _, _, h => by
    simp only [moreTexts, List.cons_append, List.append_assoc, List.cons.injEq, true_and] at h
    obtain ⟨hsame, hmore⟩ := text_unique F x y (ends_moreTexts F xs _) (ends_moreTexts F ys _) h
    obtain ⟨hrest, hr⟩ := moreTexts_unique F xs ys hmore
    exact ⟨List.cons_eq_cons.2 ⟨hsame, hrest⟩, hr⟩

theorem moreItems_unique (F : FloatText) : ∀ (es fs : List (String × Py)) {r r' : List Char},
    moreItems F es ++ r = moreItems F fs ++ r' → Py.jsonItems es = Py.jsonItems fs ∧ r = r'
  | [], [], _, _, h => ⟨rfl, (List.cons_eq_cons.1 h).2⟩
  | [], _ :: _, _, _, h => nomatch (List.cons_eq_cons.1 h).1
  | _ :: _, [], _, _, h => nomatch (List.cons_eq_cons.1 h).1
  | (k, v) :: es, (l, w) :: fs, _, _, h => by
    simp only [moreItems, List.cons_append, List.append_assoc, List.cons.injEq, true_and] at h
    obtain ⟨rfl, hvalues⟩ := quote_unique h
    simp only [List.cons.injEq, true_and] at hvalues
    obtain ⟨hsame, hmore⟩ := text_unique F v w (ends_moreItems F es _) (ends_moreItems F fs _) hvalues
    obtain ⟨hrest, hr⟩ := moreItems_unique F es fs hmore
    exact ⟨List.cons_eq_cons.2 ⟨Prod.ext rfl hsame, hrest⟩, hr⟩

end

/-! ## Sorted keys -/

theorem sortedItems_eq_map (es : List (String × Py)) :
    Py.sortedItems es = es.map fun e => (e.1, e.2.sorted) := by
  induction es with
  | nil => rfl
  | cons e es ih => rw [Py.sortedItems, ih, List.map_cons]

mutual

/-- A sorted value has no tuples. -/
theorem json_sorted : ∀ v : Py, v.sorted.json = v.sorted
  | .none => rfl
  | .bool _ => rfl
  | .int _ => rfl
  | .float _ => rfl
  | .str _ => rfl
  | .list xs => congrArg Py.list (jsons_sorteds xs)
  | .tuple xs => congrArg Py.list (jsons_sorteds xs)
  | .dict es => by
    rw [Py.sorted, Py.json, jsonItems_eq_map]
    have hitems : ∀ e ∈ (Py.sortedItems es).mergeSort (fun e f => e.1 ≤ f.1),
        (e.1, e.2.json) = id e := by
      intro e he
      rw [json_sortedItems es e (List.mem_mergeSort.1 he)]
      rfl
    rw [List.map_congr_left hitems, List.map_id]

theorem jsons_sorteds : ∀ xs : List Py, Py.jsons (Py.sorteds xs) = Py.sorteds xs
  | [] => rfl
  | x :: xs => List.cons_eq_cons.2 ⟨json_sorted x, jsons_sorteds xs⟩

theorem json_sortedItems : ∀ es : List (String × Py), ∀ e ∈ Py.sortedItems es, e.2.json = e.2
  | [], _, h => nomatch h
  | (_, v) :: es, e, h => by
    rcases List.mem_cons.1 h with rfl | h
    · exact json_sorted v
    · exact json_sortedItems es e h

end

/-- **Two values have the same text when they are the same but for the order of their keys.** -/
theorem dumps_eq_iff (F : FloatText) {v w : Py} : dumps F v = dumps F w ↔ v.sorted = w.sorted := by
  refine ⟨fun h => ?_, fun h => by rw [dumps, dumps, h]⟩
  have htext : text F v.sorted ++ [] = text F w.sorted ++ [] := by
    rw [List.append_nil, List.append_nil]
    exact String.ofList_injective h
  rw [← json_sorted v, ← json_sorted w]
  exact (text_unique F _ _ ends_nil ends_nil htext).1

theorem toList_dumps_dict (F : FloatText) (es : List (String × Py)) :
    (dumps F (.dict es)).toList.head? = some '{' := by
  rw [dumps, String.toList_ofList]
  rfl

/-- Of two dictionaries that are the same but for the order of their keys, each item of one is in
the other. -/
theorem mem_of_sorted {es fs : List (String × Py)} (h : (Py.dict es).sorted = (Py.dict fs).sorted)
    {e : String × Py} (he : e ∈ es) : ∃ w, (e.1, w) ∈ fs ∧ e.2.sorted = w.sorted := by
  have hsort := Py.dict.inj h
  have hmem : (e.1, e.2.sorted) ∈ Py.sortedItems es := by
    rw [sortedItems_eq_map]
    exact List.mem_map_of_mem (f := fun e : String × Py => (e.1, e.2.sorted)) he
  have hmem : (e.1, e.2.sorted) ∈ (Py.sortedItems es).mergeSort fun e f => e.1 ≤ f.1 :=
    List.mem_mergeSort.2 hmem
  rw [hsort, List.mem_mergeSort, sortedItems_eq_map] at hmem
  obtain ⟨f, hf, heq⟩ := List.mem_map.1 hmem
  obtain ⟨hkey, hvalue⟩ := Prod.ext_iff.1 heq
  exact ⟨f.2, hkey ▸ hf, hvalue.symm⟩

theorem length_of_sorted {es fs : List (String × Py)}
    (h : (Py.dict es).sorted = (Py.dict fs).sorted) : es.length = fs.length := by
  have hlen := congrArg List.length (Py.dict.inj h)
  simpa [sortedItems_eq_map] using hlen

theorem eqs_of_sorteds {xs ys : List Py}
    (h : ∀ x ∈ xs, ∀ y, Stored y → x.sorted = y.sorted → x.eq y = true)
    (hys : ∀ y ∈ ys, Stored y) (hsame : Py.sorteds xs = Py.sorteds ys) :
    Py.eqs xs ys = true := by
  induction xs generalizing ys with
  | nil =>
    cases ys with
    | nil => rfl
    | cons y ys => cases hsame
  | cons x xs ih =>
    cases ys with
    | nil => cases hsame
    | cons y ys =>
      obtain ⟨hx, hxs⟩ := List.forall_mem_cons.1 h
      obtain ⟨hy, hys⟩ := List.forall_mem_cons.1 hys
      obtain ⟨hhead, htail⟩ := List.cons_eq_cons.1 hsame
      rw [Py.eqs, hx y hy hhead, ih hxs hys htail]
      rfl

/-- **Values that are the same but for the order of their keys are equal.** -/
theorem Stored.eq_of_sorted {v w : Py} (hv : Stored v) (hw : Stored w)
    (h : v.sorted = w.sorted) : v.eq w = true := by
  induction hv generalizing w with
  | none | bool | int | float | str =>
    cases w with
    | list | tuple | dict => cases h
    | _ => cases h <;> simp [Py.eq, Py.number]
  | list _ ih =>
    cases hw with
    | list hys => exact eqs_of_sorteds ih hys (Py.list.inj h)
    | _ => cases h
  | @dict es hkeys _ ih =>
    cases hw with
    | @dict fs hfs hvalues =>
      rw [Py.eq, Bool.and_eq_true, beq_iff_eq, within_iff]
      refine ⟨length_of_sorted h, fun e he => ?_⟩
      obtain ⟨w, hmem, hsame⟩ := mem_of_sorted h he
      exact ⟨w, lookup_of_mem hfs hmem, ih e he (hvalues _ hmem) hsame⟩
    | _ => cases h

end PyData
