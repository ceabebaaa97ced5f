import Mathlib

/-!
# Topic filters

A topic is a list of levels, and a topic filter is one whose levels may be wildcards.

* `Matches` — the matching relation: `+` takes one level, whatever it is, and a final `#`
  takes the levels that are left, of which there may be none.
* `matches_names_append` — a filter that begins with names takes a topic that begins with
  them.
* `matches_names_hash`, `matches_names_plus` — what a branch of the tree of topics, and one
  level of it, consist of.
* `levels`, `topicFilter` — how topics and filters are spelled.
-/

namespace Topics

/-- A level of a topic filter. -/
inductive Level (α : Type*)
  | plus
  | hash
  | name (a : α)
  deriving DecidableEq

variable {α : Type*}

/-- The topics that a topic filter matches. -/
inductive Matches : List (Level α) → List α → Prop
  /-- Filter and topic end together. -/
  | done : Matches [] []
  /-- A name matches itself. -/
  | name {f : List (Level α)} {t : List α} (a : α) : Matches f t → Matches (.name a :: f) (a :: t)
  /-- `+` matches one level. -/
  | plus {f : List (Level α)} {t : List α} (a : α) : Matches f t → Matches (.plus :: f) (a :: t)
  /-- A final `#` matches what is left. -/
  | hash (t : List α) : Matches [.hash] t

@[simp] theorem matches_nil_iff {t : List α} : Matches [] t ↔ t = [] := by
  constructor
  · rintro ⟨⟩
    rfl
  · rintro rfl
    exact .done

@[simp] theorem matches_hash_iff {f : List (Level α)} {t : List α} :
    Matches (.hash :: f) t ↔ f = [] := by
  constructor
  · rintro ⟨⟩
    rfl
  · rintro rfl
    exact .hash t

@[simp] theorem matches_cons_nil_iff {l : Level α} {f : List (Level α)} :
    Matches (l :: f) [] ↔ l = .hash ∧ f = [] := by
  constructor
  · rintro ⟨⟩
    exact ⟨rfl, rfl⟩
  · rintro ⟨rfl, rfl⟩
    exact .hash []

@[simp] theorem matches_plus_cons_iff {f : List (Level α)} {a : α} {t : List α} :
    Matches (.plus :: f) (a :: t) ↔ Matches f t := by
  constructor
  · rintro ⟨⟩
    assumption
  · intro h
    exact .plus a h

@[simp] theorem matches_name_cons_iff {f : List (Level α)} {a b : α} {t : List α} :
    Matches (.name a :: f) (b :: t) ↔ a = b ∧ Matches f t := by
  constructor
  · rintro ⟨⟩
    exact ⟨rfl, by assumption⟩
  · rintro ⟨rfl, h⟩
    exact .name a h

instance instDecidableMatches [DecidableEq α] : ∀ (f : List (Level α)) (t : List α), Decidable (Matches f t)
  | [], _ => decidable_of_iff _ matches_nil_iff.symm
  | .hash :: _, _ => decidable_of_iff _ matches_hash_iff.symm
  | _ :: _, [] => decidable_of_iff _ matches_cons_nil_iff.symm
  | .plus :: f, _ :: t =>
    haveI := instDecidableMatches f t
    decidable_of_iff _ matches_plus_cons_iff.symm
  | .name _ :: f, _ :: t =>
    haveI := instDecidableMatches f t
    decidable_of_iff _ matches_name_cons_iff.symm

/-- **Names take the names they are, and the rest of the filter takes the rest.** -/
theorem matches_names_append {names : List α} {f : List (Level α)} {t : List α} :
    Matches (names.map .name ++ f) t ↔ ∃ rest, t = names ++ rest ∧ Matches f rest := by
  induction names generalizing t with
  | nil => simp
  | cons a names ih =>
    cases t with
    | nil => simp
    | cons b t =>
      rw [List.map_cons, List.cons_append, matches_name_cons_iff, ih]
      constructor
      · rintro ⟨rfl, rest, rfl, h⟩
        exact ⟨rest, rfl, h⟩
      · rintro ⟨rest, heq, h⟩
        obtain ⟨rfl, rfl⟩ := List.cons.inj heq
        exact ⟨rfl, rest, rfl, h⟩

/-- **A branch**: names with `#` behind them take what begins with the names, the names
themselves included. -/
theorem matches_names_hash {names t : List α} :
    Matches (names.map .name ++ [.hash]) t ↔ names <+: t := by
  rw [matches_names_append]
  constructor
  · rintro ⟨rest, rfl, -⟩
    exact List.prefix_append names rest
  · rintro ⟨rest, rfl⟩
    exact ⟨rest, rfl, .hash rest⟩

/-- **One level of a branch**: names with `+` behind them take the names and one level more. -/
theorem matches_names_plus {names t : List α} :
    Matches (names.map .name ++ [.plus]) t ↔ ∃ a, t = names ++ [a] := by
  rw [matches_names_append]
  constructor
  · rintro ⟨rest, rfl, h⟩
    cases rest with
    | nil => simp at h
    | cons a rest =>
      rw [matches_plus_cons_iff, matches_nil_iff] at h
      exact ⟨a, by rw [h]⟩
  · rintro ⟨a, rfl⟩
    exact ⟨[a], rfl, .plus a .done⟩

/-! ## Spelling -/

/-- `s.split("/")`. -/
def levels (s : String) : List String := (s.toList.splitOn '/').map String.ofList

/-- A level of a filter: `+` and `#` are wildcards, anything else is a name. -/
def level (s : String) : Level String :=
  if s = "+" then .plus else if s = "#" then .hash else .name s

/-- A topic filter, read level by level. -/
def topicFilter (s : String) : List (Level String) := (levels s).map level

theorem level_eq_hash_iff {s : String} : level s = .hash ↔ s = "#" := by
  unfold level
  split
  · next h => simp [h]
  · split <;> simp_all

theorem level_eq_name {s : String} (hplus : s ≠ "+") (hhash : s ≠ "#") : level s = .name s := by
  rw [level, if_neg hplus, if_neg hhash]

/-- **A slash puts levels together.** -/
theorem levels_append_slash (s t : String) : levels (s ++ "/" ++ t) = levels s ++ levels t := by
  unfold levels
  have hslash : "/".toList = ['/'] := rfl
  rw [String.toList_append, String.toList_append, hslash, List.append_assoc, List.singleton_append,
    List.splitOn_append_cons_self, List.map_append]

theorem levels_of_no_slash {s : String} (h : '/' ∉ s.toList) : levels s = [s] := by
  rw [levels, List.splitOn_eq_singleton h, List.map_singleton, String.ofList_toList]

theorem mem_of_mem_splitOn {xs l : List Char} {c d : Char} (hl : l ∈ xs.splitOn d) (hc : c ∈ l) :
    c ∈ xs := by
  induction xs generalizing l with
  | nil =>
    rw [List.splitOn_nil, List.mem_singleton] at hl
    exact hl ▸ hc
  | cons x xs ih =>
    rw [List.splitOn_cons_eq_if_modifyHead] at hl
    split at hl
    · rcases List.mem_cons.1 hl with rfl | hl
      · exact absurd hc List.not_mem_nil
      · exact List.mem_cons_of_mem _ (ih hl hc)
    · cases hpieces : xs.splitOn d with
      | nil => exact absurd hpieces (List.splitOn_ne_nil _ _)
      | cons piece pieces =>
        rw [hpieces, List.modifyHead_cons, List.mem_cons] at hl
        rcases hl with rfl | hl
        · rcases List.mem_cons.1 hc with rfl | hc
          · exact List.mem_cons_self
          · exact List.mem_cons_of_mem _ (ih (hpieces ▸ List.mem_cons_self) hc)
        · exact List.mem_cons_of_mem _ (ih (hpieces ▸ List.mem_cons_of_mem _ hl) hc)

/-- **Without wildcards a filter consists of names.** -/
theorem topicFilter_of_no_wildcard {s : String} (hplus : '+' ∉ s.toList) (hhash : '#' ∉ s.toList) :
    topicFilter s = (levels s).map .name := by
  unfold topicFilter
  apply List.map_congr_left
  intro l hl
  obtain ⟨cs, hcs, rfl⟩ := List.mem_map.1 hl
  apply level_eq_name
  · rintro heq
    refine hplus (mem_of_mem_splitOn hcs ?_)
    have hlist := congrArg String.toList heq
    rw [String.toList_ofList] at hlist
    simp [hlist]
  · rintro heq
    refine hhash (mem_of_mem_splitOn hcs ?_)
    have hlist := congrArg String.toList heq
    rw [String.toList_ofList] at hlist
    simp [hlist]

theorem topicFilter_append_slash (s t : String) :
    topicFilter (s ++ "/" ++ t) = topicFilter s ++ topicFilter t := by
  rw [topicFilter, levels_append_slash, List.map_append]
  rfl

end Topics
