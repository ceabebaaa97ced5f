import MqttBench.Lib.Dicts
import MqttBench.Lib.JsonText
import MqttBench.Lib.NumberText

/-!
# Reading JSON

`json.loads`, a descent on the text, and what it finds in the text of a value.  What `float`
makes of a numeral is a parameter; integers have any length.

* `readString_escapes`, `readNumber_int` — the scalars.
* `spell` — the text of a value with blanks of one's choice behind commas and colons, of which
  `text` is one (`spell_text`).
* `readValue_spell`, `loads_spell` — **a value is read back from its text, wherever it ends.**
-/

namespace PyData

open NumberText (isDigit_of_mem)

/-! ## The program -/

/-- The white space of JSON. -/
def isBlank (c : Char) : Bool := c == ' ' || c == '\t' || c == '\n' || c == '\r'

def skipBlanks (s : List Char) : List Char := s.dropWhile isBlank

def hexDigit (c : Char) : Option ℕ :=
  if '0' ≤ c ∧ c ≤ '9' then some (c.toNat - 48)
  else if 'a' ≤ c ∧ c ≤ 'f' then some (c.toNat - 87)
  else if 'A' ≤ c ∧ c ≤ 'F' then some (c.toNat - 55)
  else none

/-- Four hexadecimal digits. -/
def readHex4 : List Char → Option (ℕ × List Char)
  | a :: b :: c :: d :: rest => do
    let p ← hexDigit a
    let q ← hexDigit b
    let r ← hexDigit c
    let s ← hexDigit d
    pure (((p * 16 + q) * 16 + r) * 16 + s, rest)
  | _ => none

/-- What stands behind a backslash.  A surrogate without its other half is none of Lean's
characters. -/
def readEscape : List Char → Option (Char × List Char)
  | '\x22' :: rest => some ('\x22', rest)
  | '\\' :: rest => some ('\\', rest)
  | '/' :: rest => some ('/', rest)
  | 'b' :: rest => some ('\x08', rest)
  | 'f' :: rest => some ('\x0c', rest)
  | 'n' :: rest => some ('\n', rest)
  | 'r' :: rest => some ('\r', rest)
  | 't' :: rest => some ('\t', rest)
  | 'u' :: rest => do
    let (n, rest) ← readHex4 rest
    if 0xD800 ≤ n ∧ n < 0xDC00 then
      match rest with
      | '\\' :: 'u' :: rest => do
        let (m, rest) ← readHex4 rest
        if 0xDC00 ≤ m ∧ m < 0xE000 then
          pure (Char.ofNat (0x10000 + (n - 0xD800) * 0x400 + (m - 0xDC00)), rest)
        else none
      | _ => none
    else if 0xDC00 ≤ n ∧ n < 0xE000 then none
    else pure (Char.ofNat n, rest)
  | _ => none

/-- A character of a string; control characters have to be escaped. -/
def readChar : List Char → Option (Char × List Char)
  | '\\' :: rest => readEscape rest
  | c :: rest => if c.toNat < 32 then none else some (c, rest)
  | [] => none

/-- A string behind its quotation mark. -/
def readString : ℕ → List Char → Option (List Char × List Char)
  | 0, _ => none
  | _ + 1, '\x22' :: rest => some ([], rest)
  | fuel + 1, s => do
    let (c, rest) ← readChar s
    let (cs, rest) ← readString fuel rest
    pure (c :: cs, rest)

def readSign : List Char → List Char × List Char
  | '-' :: s => (['-'], s)
  | s => ([], s)

/-- The digits of a number that has no leading zeros. -/
def readWhole : List Char → Option (List Char × List Char)
  | '0' :: rest => some (['0'], rest)
  | s =>
    if s.takeWhile Char.isDigit = [] then none
    else some (s.takeWhile Char.isDigit, s.dropWhile Char.isDigit)

/-- A point and digits, or nothing. -/
def readFraction : List Char → List Char × List Char
  | '.' :: s =>
    if s.takeWhile Char.isDigit = [] then ([], '.' :: s)
    else ('.' :: s.takeWhile Char.isDigit, s.dropWhile Char.isDigit)
  | s => ([], s)

/-- A mark, perhaps a sign, and digits, or nothing. -/
def readExponent : List Char → List Char × List Char
  | e :: s =>
    let sign := s.takeWhile fun c => c == '+' || c == '-'
    let digits := (s.drop sign.length).takeWhile Char.isDigit
    if (e = 'e' ∨ e = 'E') ∧ sign.length ≤ 1 ∧ digits ≠ [] then
      (e :: (sign ++ digits), s.drop (sign.length + digits.length))
    else ([], e :: s)
  | [] => ([], [])

section

variable (float : List Char → ℚ)

def readNumber (s : List Char) : Option (Py × List Char) := do
  let (sign, s) := readSign s
  let (whole, s) ← readWhole s
  let (fraction, s) := readFraction s
  let (exponent, s) := readExponent s
  let value : ℤ := (Nat.ofDigitChars 10 whole 0 : ℕ)
  if fraction = [] ∧ exponent = [] then pure (.int (if sign = [] then value else -value), s)
  else pure (.float (float (sign ++ whole ++ fraction ++ exponent)), s)

mutual

/-- A value, behind white space. -/
def readValue : ℕ → List Char → Option (Py × List Char)
  | 0, _ => none
  | fuel + 1, s =>
    match skipBlanks s with
    | 'n' :: 'u' :: 'l' :: 'l' :: rest => some (.none, rest)
    | 't' :: 'r' :: 'u' :: 'e' :: rest => some (.bool true, rest)
    | 'f' :: 'a' :: 'l' :: 's' :: 'e' :: rest => some (.bool false, rest)
    | '\x22' :: rest => do
      let (cs, rest) ← readString (rest.length + 1) rest
      pure (.str (String.ofList cs), rest)
    | '[' :: rest =>
      match skipBlanks rest with
      | ']' :: rest => some (.list [], rest)
      | _ => do
        let (xs, rest) ← readValues fuel rest
        pure (.list xs, rest)
    | '\x7b' :: rest =>
      match skipBlanks rest with
      | '\x7d' :: rest => some (.dict [], rest)
      | _ => do
        let (es, rest) ← readItems fuel rest
        pure (.dict (Dicts.ofItems es), rest)
    | rest => readNumber float rest

/-- The values of a list that has some. -/
def readValues : ℕ → List Char → Option (List Py × List Char)
  | 0, _ => none
  | fuel + 1, s => do
    let (x, rest) ← readValue fuel s
    match skipBlanks rest with
    | ',' :: rest => do
      let (xs, rest) ← readValues fuel rest
      pure (x :: xs, rest)
    | ']' :: rest => some ([x], rest)
    | _ => none

/-- The items of a dictionary that has some. -/
def readItems : ℕ → List Char → Option (List (String × Py) × List Char)
  | 0, _ => none
  | fuel + 1, s =>
    match skipBlanks s with
    | '\x22' :: rest => do
      let (cs, rest) ← readString (rest.length + 1) rest
      match skipBlanks rest with
      | ':' :: rest => do
        let (x, rest) ← readValue fuel rest
        match skipBlanks rest with
        | ',' :: rest => do
          let (es, rest) ← readItems fuel rest
          pure ((String.ofList cs, x) :: es, rest)
        | '\x7d' :: rest => some ([(String.ofList cs, x)], rest)
        | _ => none
      | _ => none
    | _ => none

end

/-- `json.loads(s)`, or `none` for a `ValueError`. -/
def loads (s : List Char) : Option Py :=
  match readValue float (2 * s.length + 1) s with
  | some (v, rest) => if skipBlanks rest = [] then some v else none
  | none => none

end

example : loads (fun _ => 0) ['[', '1', ',', ' ', '\x22', 'a', '\x22', ']', '\n'] =
    some (.list [.int 1, .str "a"]) := rfl

/-! ## Strings -/

theorem hexDigit_digitChar : ∀ d < 16, hexDigit (Nat.digitChar d) = some d := by decide

theorem readHex4_hex4 {n : ℕ} (h : n < 0x10000) (rest : List Char) :
    readHex4 (hex4 n ++ rest) = some (n, rest) := by
  have hdigit : ∀ m, hexDigit (Nat.digitChar (m % 16)) = some (m % 16) := fun m =>
    hexDigit_digitChar _ (Nat.mod_lt _ (by decide))
  simp only [hex4, List.cons_append, List.nil_append, readHex4, hdigit, Option.bind_eq_bind,
    Option.bind_some, Option.pure_def, Option.some.injEq, Prod.mk.injEq, and_true]
  omega

/-- A unit that is no surrogate is a character. -/
theorem readChar_unit {n : ℕ} (hn : n < 0x10000) (hplain : n < 0xD800 ∨ 0xE000 ≤ n)
    (rest : List Char) : readChar (escapeUnit n ++ rest) = some (Char.ofNat n, rest) := by
  rw [escapeUnit, List.cons_append, List.cons_append, readChar, readEscape, readHex4_hex4 hn]
  simp only [Option.bind_eq_bind, Option.bind_some, Option.pure_def]
  rw [if_neg (by omega), if_neg (by omega)]

/-- The two halves of a surrogate are a character. -/
theorem readChar_pair {n m : ℕ} (hn : 0xD800 ≤ n ∧ n < 0xDC00) (hm : 0xDC00 ≤ m ∧ m < 0xE000)
    (rest : List Char) : readChar (escapeUnit n ++ (escapeUnit m ++ rest)) =
      some (Char.ofNat (0x10000 + (n - 0xD800) * 0x400 + (m - 0xDC00)), rest) := by
  rw [escapeUnit, List.cons_append, List.cons_append, readChar, readEscape,
    readHex4_hex4 (by omega)]
  simp only [Option.bind_eq_bind, Option.bind_some, Option.pure_def]
  rw [if_pos hn, escapeUnit, List.cons_append, List.cons_append]
  simp only [readHex4_hex4 (show m < 0x10000 by omega), Option.bind_some]
  rw [if_pos hm]

/-- **What a character was escaped to is read back.** -/
theorem readChar_escape (c : Char) (rest : List Char) :
    readChar (escape c ++ rest) = some (c, rest) := by
  have hvalid : c.toNat < 0xD800 ∨ 0xDFFF < c.toNat ∧ c.toNat < 0x110000 := c.valid
  unfold escape
  split_ifs with hquote hslash hn hr ht hf hb hplain hunit
  · subst hquote; rfl
  · subst hslash; rfl
  · subst hn; rfl
  · subst hr; rfl
  · subst ht; rfl
  · subst hf; rfl
  · subst hb; rfl
  · rw [List.singleton_append]
    unfold readChar
    split
    · next h => exact absurd (List.cons.inj h).1 hslash
    · next h =>
      obtain ⟨rfl, rfl⟩ := List.cons.inj h
      rw [if_neg (by omega)]
    · next h => cases h
  · rw [readChar_unit hunit (by omega), Char.ofNat_toNat]
  · have hback : 0x10000 + (0xD800 + (c.toNat - 0x10000) / 0x400 - 0xD800) * 0x400 +
        (0xDC00 + (c.toNat - 0x10000) % 0x400 - 0xDC00) = c.toNat := by omega
    rw [List.append_assoc, readChar_pair (by omega) (by omega), hback, Char.ofNat_toNat]

theorem escape_ne_nil (c : Char) : escape c ≠ [] := by
  intro h
  have hread := readChar_escape c []
  rw [h] at hread
  cases hread

theorem readString_escapes {fuel : ℕ} {cs rest : List Char}
    (hfuel : (cs.flatMap escape ++ '\x22' :: rest).length < fuel) :
    readString fuel (cs.flatMap escape ++ '\x22' :: rest) = some (cs, rest) := by
  induction cs generalizing fuel with
  | nil =>
    obtain _ | fuel := fuel
    · exact absurd hfuel (Nat.not_lt_zero _)
    · rfl
  | cons c cs ih =>
    obtain _ | fuel := fuel
    · exact absurd hfuel (Nat.not_lt_zero _)
    · rw [List.flatMap_cons, List.append_assoc] at hfuel ⊢
      have hpos := List.length_pos_iff.2 (escape_ne_nil c)
      rw [List.length_append] at hfuel
      unfold readString
      split
      · next h => cases h
      · next h => exact absurd h (escape_ne c _ _)
      · next hsame _ =>
        cases hsame
        rw [readChar_escape]
        simp only [Option.bind_eq_bind, Option.bind_some]
        rw [ih (by omega)]
        rfl

theorem readString_quote (s : String) (rest : List Char) :
    ∃ body, quote s ++ rest = '\x22' :: body ∧
      readString (body.length + 1) body = some (s.toList, rest) := by
  refine ⟨s.toList.flatMap escape ++ '\x22' :: rest, ?_, readString_escapes (Nat.lt_succ_self _)⟩
  rw [quote, List.cons_append, List.append_assoc, List.singleton_append]

/-! ## Numbers -/

/-- What a text is followed by goes on with no number that JSON knows. -/
def Stops (r : List Char) : Prop := ∀ c ∈ r.head?, isNumeral c = false ∧ c ≠ 'E'

theorem stops_cons {c : Char} (h : isNumeral c = false ∧ c ≠ 'E') (r : List Char) :
    Stops (c :: r) := fun _ hc => Option.some.inj hc ▸ h

/-- A numeral has no leading zero. -/
theorem toDigits_head {n : ℕ} (h : 0 < n) :
    ∃ c rest, Nat.toDigits 10 n = c :: rest ∧ c ≠ '0' := by
  have hdigit : ∀ d < 10, 0 < d → Nat.digitChar d ≠ '0' := by decide
  induction n using Nat.strong_induction_on with
  | _ n ih =>
    rcases lt_or_ge n 10 with hlt | hge
    · exact ⟨_, [], Nat.toDigits_of_lt_base hlt, hdigit n hlt h⟩
    · obtain ⟨c, rest, hdigits, hc⟩ := ih (n / 10) (by omega) (by omega)
      refine ⟨c, rest ++ [Nat.digitChar (n % 10)], ?_, hc⟩
      rw [Nat.toDigits_of_base_le (by decide) hge, hdigits, List.cons_append]

theorem span_digits {xs rest : List Char} (hxs : ∀ c ∈ xs, c.isDigit = true) (h : Stops rest) :
    (xs ++ rest).takeWhile Char.isDigit = xs ∧ (xs ++ rest).dropWhile Char.isDigit = rest := by
  rw [List.takeWhile_append_of_pos hxs, List.dropWhile_append_of_pos hxs]
  cases rest with
  | nil => exact ⟨List.append_nil _, rfl⟩
  | cons c rest =>
    have hc : c.isDigit = false := by
      have hnumeral := (h c rfl).1
      simp only [isNumeral, Bool.or_eq_false_iff] at hnumeral
      exact hnumeral.1.1.1.1
    simp [hc]

theorem readWhole_toDigits (n : ℕ) {rest : List Char} (h : Stops rest) :
    readWhole (Nat.toDigits 10 n ++ rest) = some (Nat.toDigits 10 n, rest) := by
  rcases Nat.eq_zero_or_pos n with rfl | hpos
  · rw [Nat.toDigits_zero]
    rfl
  · obtain ⟨c, tail, hdigits, hc⟩ := toDigits_head hpos
    obtain ⟨htake, hdrop⟩ := span_digits (fun c hc => isDigit_of_mem (n := n) hc) h
    have hne : Nat.toDigits 10 n ≠ [] := Nat.toDigits_ne_nil
    unfold readWhole
    split
    · next hzero =>
      rw [hdigits, List.cons_append] at hzero
      exact absurd (List.cons.inj hzero).1 hc
    · rw [htake, hdrop, if_neg hne]

/-- Behind a number there is no fraction and no exponent. -/
theorem Stops.nothing {s : List Char} (h : Stops s) :
    readFraction s = ([], s) ∧ readExponent s = ([], s) := by
  constructor
  · unfold readFraction
    split
    · exact absurd (h '.' rfl).1 (by decide)
    · rfl
  · unfold readExponent
    split
    · next e s =>
      have he : ¬ (e = 'e' ∨ e = 'E') := by
        rintro (rfl | rfl)
        · exact absurd (h 'e' rfl).1 (by decide)
        · exact (h 'E' rfl).2 rfl
      rw [if_neg fun hexp => he hexp.1]
    · rfl

theorem readSign_toDigits (n : ℕ) (rest : List Char) :
    readSign (Nat.toDigits 10 n ++ rest) = ([], Nat.toDigits 10 n ++ rest) := by
  obtain ⟨c, s, hcs⟩ := List.exists_cons_of_ne_nil (Nat.toDigits_ne_nil (b := 10) (n := n))
  have hdigit : c.isDigit = true := isDigit_of_mem (n := n) (hcs ▸ List.mem_cons_self)
  rw [hcs, List.cons_append]
  unfold readSign
  split
  · next hsign =>
    rw [(List.cons.inj hsign).1] at hdigit
    exact absurd hdigit (by decide)
  · rfl

theorem readNumber_int (float : List Char → ℚ) (n : ℤ) {rest : List Char} (h : Stops rest) :
    readNumber float (n.repr.toList ++ rest) = some (.int n, rest) := by
  obtain ⟨hfraction, hexponent⟩ := h.nothing
  have htext : n.repr.toList = (toString n).toList := rfl
  rw [htext, NumberText.toList_toString]
  cases n with
  | ofNat m =>
    simp [readNumber, readSign_toDigits, readWhole_toDigits m h, hfraction, hexponent,
      Nat.ofDigitChars_ten_toDigits]
  | negSucc m =>
    have hsign : readSign ('-' :: (Nat.toDigits 10 (m + 1) ++ rest)) =
        (['-'], Nat.toDigits 10 (m + 1) ++ rest) := rfl
    simp [readNumber, hsign, readWhole_toDigits (m + 1) h, hfraction, hexponent,
      Nat.ofDigitChars_ten_toDigits, Int.negSucc_eq]

/-! ## Values -/

section Spell

variable (F : FloatText) (gap : List Char)

mutual

/-- The text of a value, with `gap` behind each comma and each colon. -/
def spell : Py → List Char
  | .none => ['n', 'u', 'l', 'l']
  | .bool true => ['t', 'r', 'u', 'e']
  | .bool false => ['f', 'a', 'l', 's', 'e']
  | .int n => n.repr.toList
  | .float q => F.repr q
  | .str s => quote s
  | .list xs => '[' :: spellList xs
  | .tuple xs => '[' :: spellList xs
  | .dict es => '\x7b' :: spellDict es

def spellList : List Py → List Char
  | [] => [']']
  | x :: xs => spell x ++ spellMore xs

def spellMore : List Py → List Char
  | [] => [']']
  | x :: xs => ',' :: (gap ++ (spell x ++ spellMore xs))

def spellDict : List (String × Py) → List Char
  | [] => ['\x7d']
  | (k, v) :: es => quote k ++ (':' :: (gap ++ (spell v ++ spellItems es)))

def spellItems : List (String × Py) → List Char
  | [] => ['\x7d']
  | (k, v) :: es => ',' :: (gap ++ (quote k ++ (':' :: (gap ++ (spell v ++ spellItems es)))))

end

end Spell

theorem spell_int (F : FloatText) (gap : List Char) (n : ℤ) :
    spell F gap (.int n) = n.repr.toList := by rw [spell]

mutual

/-- `json.dumps` leaves one blank. -/
theorem spell_text (F : FloatText) : ∀ v : Py, spell F [' '] v = text F v
  | .none => rfl
  | .bool true => rfl
  | .bool false => rfl
  | .int _ => rfl
  | .float _ => rfl
  | .str _ => rfl
  | .list xs => congrArg _ (spellList_texts F xs)
  | .tuple xs => congrArg _ (spellList_texts F xs)
  | .dict es => congrArg _ (spellDict_textItems F es)

theorem spellList_texts (F : FloatText) : ∀ xs : List Py, spellList F [' '] xs = texts F xs
  | [] => rfl
  | x :: xs => by rw [spellList, texts, spell_text F x, spellMore_moreTexts F xs]

theorem spellMore_moreTexts (F : FloatText) :
    ∀ xs : List Py, spellMore F [' '] xs = moreTexts F xs
  | [] => rfl
  | x :: xs => by
    rw [spellMore, moreTexts, spell_text F x, spellMore_moreTexts F xs]
    rfl

theorem spellDict_textItems (F : FloatText) :
    ∀ es : List (String × Py), spellDict F [' '] es = textItems F es
  | [] => rfl
  | (k, v) :: es => by
    rw [spellDict, textItems, spell_text F v, spellItems_moreItems F es]
    rfl

theorem spellItems_moreItems (F : FloatText) :
    ∀ es : List (String × Py), spellItems F [' '] es = moreItems F es
  | [] => rfl
  | (k, v) :: es => by
    rw [spellItems, moreItems, spell_text F v, spellItems_moreItems F es]
    rfl

end

mutual

/-- The floats in a value. -/
def Py.floats : Py → List ℚ
  | .float q => [q]
  | .list xs => Py.floatsOf xs
  | .tuple xs => Py.floatsOf xs
  | .dict es => Py.floatsIn es
  | _ => []

def Py.floatsOf : List Py → List ℚ
  | [] => []
  | x :: xs => x.floats ++ Py.floatsOf xs

def Py.floatsIn : List (String × Py) → List ℚ
  | [] => []
  | (_, x) :: es => x.floats ++ Py.floatsIn es

end

theorem skipBlanks_append {ws s : List Char} (hws : ∀ c ∈ ws, isBlank c = true)
    (hs : ∀ c ∈ s.head?, isBlank c = false) : skipBlanks (ws ++ s) = s := by
  rw [skipBlanks, List.dropWhile_append_of_pos hws]
  cases s with
  | nil => rfl
  | cons c s => rw [List.dropWhile_cons_of_neg (by simp [hs c rfl])]

section Read

variable {F : FloatText} {gap : List Char} {float : List Char → ℚ}

/-- The first character of a text tells the kind of its value. -/
theorem spell_head (F : FloatText) (gap : List Char) (v : Py) : ∃ c rest,
    spell F gap v = c :: rest ∧ isBlank c = false ∧ c ≠ ']' ∧ (v.mark = 2 → isNumeral c = true) := by
  have hnumber : ∀ xs : List Char, xs ≠ [] → (∀ c ∈ xs, isNumeral c = true) →
      ∃ c rest, xs = c :: rest ∧ isBlank c = false ∧ c ≠ ']' ∧ isNumeral c = true := by
    intro xs hne hxs
    obtain ⟨c, rest, rfl⟩ := List.exists_cons_of_ne_nil hne
    have hc := hxs c List.mem_cons_self
    refine ⟨c, rest, rfl, ?_, ?_, hc⟩
    · by_contra hblank
      simp only [isBlank, Bool.not_eq_false, Bool.or_eq_true, beq_iff_eq] at hblank
      obtain ((rfl | rfl) | rfl) | rfl := hblank <;> exact absurd hc (by decide)
    · rintro rfl
      exact absurd hc (by decide)
  cases v with
  | none => exact ⟨_, _, rfl, by decide, by decide, fun h => by cases h⟩
  | bool b => cases b <;> exact ⟨_, _, rfl, by decide, by decide, fun h => by cases h⟩
  | int n =>
    obtain ⟨c, rest, h, hblank, hclose, hc⟩ := hnumber _ (int_ne_nil n) (numeral_int n)
    exact ⟨c, rest, h, hblank, hclose, fun _ => hc⟩
  | float q =>
    obtain ⟨c, rest, h, hblank, hclose, hc⟩ := hnumber _ (F.ne_nil q) (F.numeral q)
    exact ⟨c, rest, h, hblank, hclose, fun _ => hc⟩
  | str s => exact ⟨_, _, rfl, by decide, by decide, fun h => by cases h⟩
  | list xs | tuple xs => exact ⟨_, _, rfl, by decide, by decide, fun h => by cases h⟩
  | dict es => exact ⟨_, _, rfl, by decide, by decide, fun h => by cases h⟩

theorem skipBlanks_spell {ws : List Char} (hws : ∀ c ∈ ws, isBlank c = true) (v : Py)
    (r : List Char) : skipBlanks (ws ++ (spell F gap v ++ r)) = spell F gap v ++ r := by
  obtain ⟨c, rest, h, hblank, -⟩ := spell_head F gap v
  rw [h]
  exact skipBlanks_append hws fun d hd => Option.some.inj hd ▸ hblank

theorem stops_spellMore (F : FloatText) (gap : List Char) (xs : List Py) (r : List Char) :
    Stops (spellMore F gap xs ++ r) := by
  cases xs <;> exact stops_cons (by decide) _

theorem stops_spellItems (F : FloatText) (gap : List Char) (es : List (String × Py))
    (r : List Char) : Stops (spellItems F gap es ++ r) := by
  cases es <;> exact stops_cons (by decide) _

theorem no_blanks : ∀ c ∈ ([] : List Char), isBlank c = true := fun _ hc => nomatch hc

/-- What begins with the character of a number is read as a number. -/
theorem readValue_numeral {fuel : ℕ} {s rest : List Char} {c : Char} (hc : isNumeral c = true)
    (h : skipBlanks s = c :: rest) :
    readValue float (fuel + 1) s = readNumber float (c :: rest) := by
  rw [readValue, h]
  split <;> first
    | rfl
    | (next heq => rw [(List.cons.inj heq).1] at hc; exact absurd hc (by decide))

theorem readValue_number {fuel : ℕ} {ws : List Char} (hws : ∀ c ∈ ws, isBlank c = true) {v : Py}
    (hv : v.mark = 2) (r : List Char) :
    readValue float (fuel + 1) (ws ++ (spell F gap v ++ r)) =
      readNumber float (spell F gap v ++ r) := by
  have hskip : skipBlanks (ws ++ (spell F gap v ++ r)) = _ := skipBlanks_spell hws v r
  obtain ⟨c, rest, h, -, -, hc⟩ := spell_head F gap v
  rw [h] at hskip ⊢
  exact readValue_numeral (hc hv) hskip

/-- The float of a numeral is read back. -/
def Reads (F : FloatText) (float : List Char → ℚ) (q : ℚ) : Prop :=
  ∀ r, Stops r → readNumber float (F.repr q ++ r) = some (.float q, r)

/-- A list that has a value. -/
theorem readValue_list {fuel : ℕ} {s rest rest' : List Char} {c : Char}
    (h : skipBlanks s = '[' :: rest) (hrest : skipBlanks rest = c :: rest') (hc : c ≠ ']') :
    readValue float (fuel + 1) s =
      (readValues float fuel rest).map fun found => (.list found.1, found.2) := by
  rw [readValue, h]
  simp only [hrest]
  split
  · next heq => exact absurd (List.cons.inj heq).1 hc
  · cases readValues float fuel rest <;> rfl

/-- A dictionary that has an item. -/
theorem readValue_dict {fuel : ℕ} {s rest rest' : List Char}
    (h : skipBlanks s = '\x7b' :: rest) (hrest : skipBlanks rest = '\x22' :: rest') :
    readValue float (fuel + 1) s =
      (readItems float fuel rest).map fun found => (.dict (Dicts.ofItems found.1), found.2) := by
  rw [readValue, h]
  simp only [hrest]
  cases readItems float fuel rest <;> rfl

mutual

/-- **A value is read back from its text.** -/
theorem readValue_spell (hgap : ∀ c ∈ gap, isBlank c = true) :
    ∀ v : Py, Stored v → (∀ q ∈ v.floats, Reads F float q) →
    ∀ {fuel : ℕ} {ws r : List Char}, (∀ c ∈ ws, isBlank c = true) → Stops r →
    2 * (spell F gap v ++ r).length < fuel →
    readValue float fuel (ws ++ (spell F gap v ++ r)) = some (v, r)
  | v, hv, hfloats, 0, _, _, _, _, hfuel => absurd hfuel (Nat.not_lt_zero _)
  | .none, _, _, fuel + 1, ws, r, hws, _, _ => by
    rw [readValue, skipBlanks_spell hws]
    rfl
  | .bool b, _, _, fuel + 1, ws, r, hws, _, _ => by
    rw [readValue, skipBlanks_spell hws]
    cases b <;> rfl
  | .int n, _, _, fuel + 1, ws, r, hws, hr, _ => by
    rw [readValue_number hws rfl]
    exact readNumber_int float n hr
  | .float q, _, hfloats, fuel + 1, ws, r, hws, hr, _ => by
    rw [readValue_number hws rfl]
    exact hfloats q (List.mem_singleton_self q) r hr
  | .str s, _, _, fuel + 1, ws, r, hws, _, _ => by
    obtain ⟨body, hbody, hread⟩ := readString_quote s r
    rw [readValue, skipBlanks_spell hws, spell, hbody]
    simp [hread]
  | .list [], _, _, fuel + 1, ws, r, hws, _, _ => by
    rw [readValue, skipBlanks_spell hws]
    rfl
  | .list (x :: xs), .list hxs, hfloats, fuel + 1, ws, r, hws, _, hfuel => by
    have hread := readValues_spell hgap (x :: xs) (List.cons_ne_nil x xs) hxs hfloats
      no_blanks (show 2 * (spellList F gap (x :: xs) ++ r).length + 1 < fuel by
        simp only [spell, List.cons_append, List.length_cons] at hfuel
        omega)
    obtain ⟨c, rest, hhead, hblank, hclose, -⟩ := spell_head F gap x
    have hskip : skipBlanks (spellList F gap (x :: xs) ++ r) =
        c :: (rest ++ spellMore F gap xs ++ r) := by
      rw [spellList, hhead]
      exact skipBlanks_append no_blanks fun d hd => Option.some.inj hd ▸ hblank
    rw [readValue_list (skipBlanks_spell hws _ _) hskip hclose]
    rw [List.nil_append] at hread
    rw [hread]
    rfl
  | .dict [], _, _, fuel + 1, ws, r, hws, _, _ => by
    rw [readValue, skipBlanks_spell hws]
    rfl
  | .dict ((k, v) :: es), .dict hkeys hes, hfloats, fuel + 1, ws, r, hws, _, hfuel => by
    have hread := readItems_spell hgap ((k, v) :: es) (List.cons_ne_nil _ es) hes hfloats
      no_blanks (show 2 * (spellDict F gap ((k, v) :: es) ++ r).length + 1 < fuel by
        simp only [spell, List.cons_append, List.length_cons] at hfuel
        omega)
    have hskip : skipBlanks (spellDict F gap ((k, v) :: es) ++ r) = '\x22' :: _ := rfl
    rw [readValue_dict (skipBlanks_spell hws _ _) hskip]
    rw [List.nil_append] at hread
    rw [hread, Option.map_some, Dicts.ofItems_of_nodup hkeys]

theorem readValues_spell (hgap : ∀ c ∈ gap, isBlank c = true) :
    ∀ xs : List Py, xs ≠ [] → (∀ x ∈ xs, Stored x) →
    (∀ q ∈ Py.floatsOf xs, Reads F float q) →
    ∀ {fuel : ℕ} {ws r : List Char}, (∀ c ∈ ws, isBlank c = true) →
    2 * (spellList F gap xs ++ r).length + 1 < fuel →
    readValues float fuel (ws ++ (spellList F gap xs ++ r)) = some (xs, r)
  | [], hne, _, _, _, _, _, _, _ => absurd rfl hne
  | _ :: _, _, _, _, 0, _, _, _, hfuel => absurd hfuel (Nat.not_lt_zero _)
  | x :: xs, _, hxs, hfloats, fuel + 1, ws, r, hws, hfuel => by
    rw [spellList, List.append_assoc] at hfuel ⊢
    have hread := readValue_spell hgap x (hxs x List.mem_cons_self)
      (fun q hq => hfloats q (List.mem_append_left _ hq)) hws (stops_spellMore F gap xs r)
      (show _ < fuel by omega)
    rw [readValues, hread]
    cases xs with
    | nil => rfl
    | cons y ys =>
      have hmore := readValues_spell hgap (y :: ys) (List.cons_ne_nil y ys)
        (fun z hz => hxs z (List.mem_cons_of_mem x hz))
        (fun q hq => hfloats q (List.mem_append_right _ hq)) hgap
        (show 2 * (spellList F gap (y :: ys) ++ r).length + 1 < fuel by
          simp only [spellMore, spellList, List.cons_append, List.length_cons,
            List.length_append] at hfuel ⊢
          omega)
      have htext : spellMore F gap (y :: ys) ++ r =
          ',' :: (gap ++ (spellList F gap (y :: ys) ++ r)) := by
        rw [spellMore, spellList, List.cons_append, List.append_assoc]
      have hcomma : skipBlanks (',' :: (gap ++ (spellList F gap (y :: ys) ++ r))) =
        ',' :: (gap ++ (spellList F gap (y :: ys) ++ r)) := rfl
      simp only [Option.bind_eq_bind, Option.bind_some, htext, hcomma, hmore]
      rfl

theorem readItems_spell (hgap : ∀ c ∈ gap, isBlank c = true) :
    ∀ es : List (String × Py), es ≠ [] → (∀ e ∈ es, Stored e.2) →
    (∀ q ∈ Py.floatsIn es, Reads F float q) →
    ∀ {fuel : ℕ} {ws r : List Char}, (∀ c ∈ ws, isBlank c = true) →
    2 * (spellDict F gap es ++ r).length + 1 < fuel →
    readItems float fuel (ws ++ (spellDict F gap es ++ r)) = some (es, r)
  | [], hne, _, _, _, _, _, _, _ => absurd rfl hne
  | _ :: _, _, _, _, 0, _, _, _, hfuel => absurd hfuel (Nat.not_lt_zero _)
  | (k, v) :: es, _, hes, hfloats, fuel + 1, ws, r, hws, hfuel => by
    have htext : spellDict F gap ((k, v) :: es) ++ r =
        quote k ++ (':' :: (gap ++ (spell F gap v ++ (spellItems F gap es ++ r)))) := by
      simp [spellDict]
    obtain ⟨body, hbody, hkey⟩ := readString_quote k
      (':' :: (gap ++ (spell F gap v ++ (spellItems F gap es ++ r))))
    have hlength := congrArg List.length hbody
    rw [htext] at hfuel ⊢
    have hread := readValue_spell hgap v (hes (k, v) List.mem_cons_self)
      (fun q hq => hfloats q (List.mem_append_left _ hq)) hgap (stops_spellItems F gap es r)
      (show _ < fuel by
        simp only [List.length_append, List.length_cons] at hfuel ⊢
        omega)
    have hskip : skipBlanks (ws ++ '\x22' :: body) = '\x22' :: body :=
      skipBlanks_append hws fun c hc => by
        rw [← Option.some.inj hc]
        rfl
    have hcolon : ∀ s, skipBlanks (':' :: s) = ':' :: s := fun s => rfl
    rw [readItems, hbody, hskip]
    simp only [hkey, Option.bind_eq_bind, Option.bind_some, hcolon, hread, String.ofList_toList]
    cases es with
    | nil => rfl
    | cons e es =>
      have hmore := readItems_spell hgap (e :: es) (List.cons_ne_nil e es)
        (fun z hz => hes z (List.mem_cons_of_mem _ hz))
        (fun q hq => hfloats q (List.mem_append_right _ hq)) hgap
        (show 2 * (spellDict F gap (e :: es) ++ r).length + 1 < fuel by
          obtain ⟨l, w⟩ := e
          simp only [spellItems, spellDict, List.cons_append, List.length_cons,
            List.length_append] at hfuel ⊢
          omega)
      have hitems : spellItems F gap (e :: es) ++ r =
          ',' :: (gap ++ (spellDict F gap (e :: es) ++ r)) := by
        simp [spellItems, spellDict]
      have hcomma : ∀ s, skipBlanks (',' :: s) = ',' :: s := fun s => rfl
      simp only [hitems, hcomma, hmore, Option.bind_some]
      rfl

end

/-- **`json.loads` reads back what was written**, and passes over white space around it. -/
theorem loads_spell (F : FloatText) (float : List Char → ℚ) {gap : List Char}
    (hgap : ∀ c ∈ gap, isBlank c = true) {v : Py} (hv : Stored v)
    (hfloats : ∀ q ∈ v.floats, Reads F float q)
    {before after : List Char} (hbefore : ∀ c ∈ before, isBlank c = true)
    (hafter : ∀ c ∈ after, isBlank c = true) :
    loads float (before ++ (spell F gap v ++ after)) = some v := by
  have hstops : Stops after := by
    intro c hc
    have hblank := hafter c (List.mem_of_mem_head? hc)
    simp only [isBlank, Bool.or_eq_true, beq_iff_eq] at hblank
    obtain ((rfl | rfl) | rfl) | rfl := hblank <;> decide
  have hskip : skipBlanks after = [] := by
    simpa using skipBlanks_append (s := []) hafter fun c hc => nomatch hc
  rw [loads, readValue_spell hgap v hv hfloats hbefore hstops (by
    simp only [List.length_append]
    omega)]
  simp only
  rw [if_pos hskip]

end Read

/-! ## One line -/

/-- No control character, so no end of a line. -/
def Printable (s : List Char) : Prop := ∀ c ∈ s, 32 ≤ c.toNat

theorem Printable.append {s t : List Char} (hs : Printable s) (ht : Printable t) :
    Printable (s ++ t) := fun c hc => (List.mem_append.1 hc).elim (hs c) (ht c)

theorem Printable.cons {c : Char} (hc : 32 ≤ c.toNat) {s : List Char} (hs : Printable s) :
    Printable (c :: s) := List.forall_mem_cons.2 ⟨hc, hs⟩

theorem printable_nil : Printable [] := fun _ hc => nomatch hc

theorem printable_numeral {s : List Char} (h : ∀ c ∈ s, isNumeral c = true) : Printable s := by
  intro c hc
  have hnumeral := h c hc
  simp only [isNumeral, Char.isDigit, Bool.or_eq_true, Bool.and_eq_true, decide_eq_true_eq,
    beq_iff_eq] at hnumeral
  obtain (((⟨hlo, -⟩ | rfl) | rfl) | rfl) | rfl := hnumeral
  · exact (show 32 ≤ 48 by decide).trans (UInt32.le_iff_toNat_le.1 hlo)
  all_goals decide

theorem printable_escapeUnit (n : ℕ) : Printable (escapeUnit n) := by
  have hdigit : ∀ m, 32 ≤ (Nat.digitChar (m % 16)).toNat := by
    have hall : ∀ d < 16, 32 ≤ (Nat.digitChar d).toNat := by decide
    exact fun m => hall _ (Nat.mod_lt _ (by decide))
  exact .cons (by decide) (.cons (by decide) (.cons (hdigit _) (.cons (hdigit _)
    (.cons (hdigit _) (.cons (hdigit _) printable_nil)))))

theorem printable_escape (c : Char) : Printable (escape c) := by
  unfold escape
  split_ifs with hquote hslash hn hr ht hf hb hplain hunit
  all_goals first
    | exact .cons hplain.1 printable_nil
    | exact .cons (by decide) (.cons (by decide) printable_nil)
    | exact printable_escapeUnit _
    | exact (printable_escapeUnit _).append (printable_escapeUnit _)

theorem printable_quote (s : String) : Printable (quote s) := by
  refine .cons (by decide) (.append ?_ (.cons (by decide) printable_nil))
  intro c hc
  obtain ⟨d, -, hd⟩ := List.mem_flatMap.1 hc
  exact printable_escape d c hd

section Line

variable (F : FloatText) {gap : List Char}

mutual

/-- **A text is one line.** -/
theorem printable_spell (hgap : Printable gap) : ∀ v : Py, Printable (spell F gap v)
  | .none => by
    rw [spell]
    simp [Printable]
  | .bool true => by
    rw [spell]
    simp [Printable]
  | .bool false => by
    rw [spell]
    simp [Printable]
  | .int n => by
    rw [spell]
    exact printable_numeral (numeral_int n)
  | .float q => by
    rw [spell]
    exact printable_numeral (F.numeral q)
  | .str s => by
    rw [spell]
    exact printable_quote s
  | .list xs | .tuple xs => by
    rw [spell]
    exact .cons (by decide) (printable_spellList hgap xs)
  | .dict es => by
    rw [spell]
    exact .cons (by decide) (printable_spellDict hgap es)

theorem printable_spellList (hgap : Printable gap) :
    ∀ xs : List Py, Printable (spellList F gap xs)
  | [] => by
    rw [spellList]
    exact .cons (by decide) printable_nil
  | x :: xs => by
    rw [spellList]
    exact (printable_spell hgap x).append (printable_spellMore hgap xs)

theorem printable_spellMore (hgap : Printable gap) :
    ∀ xs : List Py, Printable (spellMore F gap xs)
  | [] => by
    rw [spellMore]
    exact .cons (by decide) printable_nil
  | x :: xs => by
    rw [spellMore]
    exact .cons (by decide)
      (hgap.append ((printable_spell hgap x).append (printable_spellMore hgap xs)))

theorem printable_spellDict (hgap : Printable gap) :
    ∀ es : List (String × Py), Printable (spellDict F gap es)
  | [] => by
    rw [spellDict]
    exact .cons (by decide) printable_nil
  | (k, v) :: es => by
    rw [spellDict]
    exact (printable_quote k).append (.cons (by decide)
      (hgap.append ((printable_spell hgap v).append (printable_spellItems hgap es))))

theorem printable_spellItems (hgap : Printable gap) :
    ∀ es : List (String × Py), Printable (spellItems F gap es)
  | [] => by
    rw [spellItems]
    exact .cons (by decide) printable_nil
  | (k, v) :: es => by
    rw [spellItems]
    exact .cons (by decide) (hgap.append ((printable_quote k).append (.cons (by decide)
      (hgap.append ((printable_spell hgap v).append (printable_spellItems hgap es))))))

end

end Line

/-! ## Without blanks -/

section Compact

variable (F : FloatText)

theorem spellMore_eq (xs : List Py) :
    spellMore F [] xs = xs.flatMap (fun x => ',' :: spell F [] x) ++ [']'] := by
  induction xs with
  | nil => rfl
  | cons x xs ih => simp [spellMore, ih]

theorem spellItems_eq (es : List (String × Py)) :
    spellItems F [] es =
      es.flatMap (fun e => ',' :: (quote e.1 ++ ':' :: spell F [] e.2)) ++ ['\x7d'] := by
  induction es with
  | nil => rfl
  | cons e es ih =>
    obtain ⟨k, v⟩ := e
    simp [spellItems, ih]

/-- What is joined by commas begins with its first part. -/
theorem intercalate_comma (w : List Char) (ws : List (List Char)) :
    [','].intercalate (w :: ws) = w ++ ws.flatMap fun w => ',' :: w := by
  induction ws generalizing w with
  | nil => simp
  | cons w' ws ih =>
    rw [List.intercalate_cons_cons, ih, List.flatMap_cons]
    simp

/-- Without blanks, a list is its values joined by commas. -/
theorem spell_list (xs : List Py) :
    spell F [] (.list xs) = '[' :: ([','].intercalate (xs.map (spell F [])) ++ [']']) := by
  cases xs with
  | nil => rfl
  | cons x xs =>
    rw [spell, spellList, spellMore_eq, List.map_cons, intercalate_comma, List.flatMap_map,
      List.append_assoc]

/-- Without blanks, a dictionary is its items joined by commas. -/
theorem spell_dict (es : List (String × Py)) :
    spell F [] (.dict es) = '\x7b' ::
      ([','].intercalate (es.map fun e => quote e.1 ++ ':' :: spell F [] e.2) ++ ['\x7d']) := by
  cases es with
  | nil => rfl
  | cons e es =>
    obtain ⟨k, v⟩ := e
    rw [List.map_cons, intercalate_comma, List.flatMap_map]
    simp [spell, spellDict, spellItems_eq]

end Compact

end PyData
