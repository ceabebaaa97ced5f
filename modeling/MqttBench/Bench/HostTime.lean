import MqttBench.Lib.Dicts
import MqttBench.Lib.Grouping
import MqttBench.Lib.PyText
import MqttBench.Lib.Rounding

/-!
# Who used the host

`parse_process_stat`, `host_processes` and `attribute` of `bench/procstat.py`: the CPU time of the
processes of the host between two readings.

* `parseProcessStat`, `hostProcesses`, `attributed` — the program.
* `parse_statText` — a command name may hold spaces and parentheses.
* `hostProcesses_shown` — a reading has every process once.
* `attributed_exact` — **what the processes that live through the window spend is attributed, once,
  to their names.**
-/

namespace Bench

namespace Procstat

open NumberText PyText Rounding

/-! ## The program -/

/-- `text.rfind(c)`, when there is one. -/
def rfind (c : Char) (text : List Char) : Option ℕ :=
  (text.reverse.findIdx? (· = c)).map fun i => text.length - 1 - i

/-- `parse_process_stat(text)`; `none` is `ValueError` or `IndexError`. -/
def parseProcessStat (text : List Char) : Option (List Char × ℤ) := do
  let start := ((text.findIdx? (· = '(')).map (· + 1)).getD 0
  -- Without a `)`, the index is -1.
  let comm := (text.take ((rfind ')' text).getD (text.length - 1))).drop start
  let fields := words isSpace (text.drop (((rfind ')' text).map (· + 2)).getD 1))
  let utime ← (fields[11]?).bind int
  let stime ← (fields[12]?).bind int
  pure (comm, utime + stime)

/-- An entry of `/proc`, with what its `stat` holds. -/
abbrev ProcEntry := List Char × Option (List Char)

def readEntry (e : ProcEntry) : Option (ℕ × (List Char × ℤ)) :=
  if e.1 ≠ [] ∧ e.1.all Char.isDigit then do
    let text ← e.2.filter fun s => !s.isEmpty
    let process ← parseProcessStat text
    pure (Nat.ofDigitChars 10 e.1 0, process)
  else none

/-- `host_processes()`. -/
def hostProcesses (entries : List ProcEntry) : List (ℕ × (List Char × ℤ)) :=
  Dicts.ofItems (entries.filterMap readEntry)

/-- What `attribute` returns, and the cores of every name. -/
structure Attribution where
  byName : List (List Char × ℚ)
  top : List (List Char × ℚ)
  processesCores : ℚ

/-- The name and the cores of a process that counts. -/
def usedBy (clkTck : ℕ) (a : List (ℕ × (List Char × ℤ))) (exclude : List ℕ) (wallS : ℚ)
    (labels : List (ℕ × List Char)) (e : ℕ × (List Char × ℤ)) : Option (List Char × ℚ) :=
  if e.1 ∈ exclude then none
  else (Dicts.get a e.1).bind fun old =>
    let used := (e.2.2 - old.2 : ℤ) / clkTck / wallS
    if 0 < used then some ((Dicts.get labels e.1).getD e.2.1, used) else none

/-- `attribute(a, b, exclude, wall_s, labels=labels, limit=limit, floor=floor)`. -/
def attributed (clkTck : ℕ) (a b : List (ℕ × (List Char × ℤ))) (exclude : List ℕ) (wallS : ℚ)
    (labels : List (ℕ × List Char)) (limit : ℕ) (floor : ℚ) : Attribution :=
  let byName := Dicts.gather (fun t e => t + e.2) 0 Prod.fst
    (b.filterMap (usedBy clkTck a exclude wallS labels))
  let ranked := byName.mergeSort fun x y => -x.2 ≤ -y.2
  { byName
    top := ((ranked.take limit).filter fun e => floor ≤ e.2).map fun e => (e.1, roundTo 3 e.2)
    processesCores := (byName.map Prod.snd).sum }

/-! ## The files of a process -/

/-- A process, as the kernel shows it. -/
structure Shown where
  pid : ℕ
  comm : List Char
  utime : ℕ
  stime : ℕ
  fields : List (List Char)
  words : ∀ w ∈ fields, w ≠ [] ∧ ∀ c ∈ w, isSpace c = false ∧ c ≠ ')'
  hasUtime : fields[11]? = some (Nat.toDigits 10 utime)
  hasStime : fields[12]? = some (Nat.toDigits 10 stime)
  small : utime < 2 ^ 64 ∧ stime < 2 ^ 64

namespace Shown

def ticks (p : Shown) : ℤ := p.utime + p.stime

/-- `/proc/<pid>/stat`. -/
def statText (p : Shown) : List Char :=
  Nat.toDigits 10 p.pid ++ ' ' :: '(' ::
    (p.comm ++ ')' :: ' ' :: ([' '].intercalate p.fields ++ ['\n']))

def entry (p : Shown) : ProcEntry := (Nat.toDigits 10 p.pid, some p.statText)

end Shown

theorem rfind_append {c : Char} {xs ys : List Char} (h : c ∉ ys) :
    rfind c (xs ++ c :: ys) = some xs.length := by
  have hnot : ys.reverse.findIdx? (fun x => decide (x = c)) = none := by
    rw [List.findIdx?_eq_none_iff]
    intro x hx
    exact decide_eq_false fun heq => h (heq ▸ List.mem_reverse.1 hx)
  have hfound : (xs ++ c :: ys).reverse.findIdx? (fun x => decide (x = c)) = some ys.length := by
    rw [List.reverse_append, List.reverse_cons, List.append_assoc, List.findIdx?_append, hnot]
    simp [List.findIdx?_cons]
  rw [rfind, hfound, Option.map_some, List.length_append, List.length_cons]
  congr 1
  omega

theorem findIdx_append {c : Char} {xs ys : List Char} (h : c ∉ xs) :
    (xs ++ c :: ys).findIdx? (· = c) = some xs.length := by
  have hnot : xs.findIdx? (fun x => decide (x = c)) = none := by
    rw [List.findIdx?_eq_none_iff]
    exact fun x hx => decide_eq_false fun heq => h (heq ▸ hx)
  rw [List.findIdx?_append, hnot]
  simp [List.findIdx?_cons]

section

variable (p : Shown)

/-- The last `)` is behind the name. -/
theorem rfind_statText : rfind ')' p.statText =
    some ((Nat.toDigits 10 p.pid).length + 2 + p.comm.length) := by
  have hsplit : p.statText = (Nat.toDigits 10 p.pid ++ ' ' :: '(' :: p.comm) ++
      ')' :: ' ' :: ([' '].intercalate p.fields ++ ['\n']) := by
    simp [Shown.statText]
  have hnot : ')' ∉ ' ' :: ([' '].intercalate p.fields ++ ['\n']) := by
    intro hc
    rcases List.mem_cons.1 hc with hc | hc
    · cases hc
    · rcases List.mem_append.1 hc with hc | hc
      · rcases mem_intercalate hc with hc | ⟨w, hw, hc⟩
        · cases hc
        · exact ((p.words w hw).2 _ hc).2 rfl
      · simp at hc
  rw [hsplit, rfind_append hnot]
  simp
  omega

/-- The first `(` is before the name. -/
theorem findIdx_statText : p.statText.findIdx? (· = '(') =
    some ((Nat.toDigits 10 p.pid).length + 1) := by
  have hsplit : p.statText = (Nat.toDigits 10 p.pid ++ [' ']) ++
      '(' :: (p.comm ++ ')' :: ' ' :: ([' '].intercalate p.fields ++ ['\n'])) := by
    simp [Shown.statText]
  have hnot : '(' ∉ Nat.toDigits 10 p.pid ++ [' '] := by
    intro hc
    rcases List.mem_append.1 hc with hc | hc
    · exact absurd (isDigit_of_mem hc) (by decide)
    · simp at hc
  rw [hsplit, findIdx_append hnot]
  simp

theorem comm_statText :
    (p.statText.take ((Nat.toDigits 10 p.pid).length + 2 + p.comm.length)).drop
      ((Nat.toDigits 10 p.pid).length + 2) = p.comm := by
  have hsplit : p.statText = (Nat.toDigits 10 p.pid ++ [' ', '(']) ++
      (p.comm ++ ')' :: ' ' :: ([' '].intercalate p.fields ++ ['\n'])) := by
    simp [Shown.statText]
  have hlength : (Nat.toDigits 10 p.pid ++ [' ', '(']).length =
      (Nat.toDigits 10 p.pid).length + 2 := by simp
  rw [hsplit, ← hlength, List.take_length_add_append, List.drop_left, List.take_left]

theorem words_statText :
    words isSpace (p.statText.drop ((Nat.toDigits 10 p.pid).length + 2 + p.comm.length + 2)) =
      p.fields := by
  have hsplit : p.statText = (Nat.toDigits 10 p.pid ++ ' ' :: '(' :: (p.comm ++ [')', ' '])) ++
      ([' '].intercalate p.fields ++ ['\n']) := by
    simp [Shown.statText]
  have hlength : (Nat.toDigits 10 p.pid ++ ' ' :: '(' :: (p.comm ++ [')', ' '])).length =
      (Nat.toDigits 10 p.pid).length + 2 + p.comm.length + 2 := by
    simp
    omega
  rw [hsplit, ← hlength, List.drop_left, words_append_cons _ _ (by simp [isSpace]),
    words_intercalate (by simp [isSpace])
      fun w hw => ⟨(p.words w hw).1, fun c hc => ((p.words w hw).2 c hc).1⟩]
  exact List.append_nil _

/-- **A command name may hold spaces and parentheses.** -/
theorem parse_statText : parseProcessStat p.statText = some (p.comm, p.ticks) := by
  simp only [parseProcessStat, rfind_statText, findIdx_statText, Option.getD_some, Option.map_some,
    comm_statText, words_statText, p.hasUtime, p.hasStime, Option.bind_some,
    int_number p.small.1, int_number p.small.2]
  rfl

end

/-! ## A reading -/

/-- The entries of `/proc` that show the processes `ps`: one file for each, and files that are not
of a process, or of one that is gone. -/
structure Shows (entries : List ProcEntry) (ps : List Shown) : Prop where
  names : (entries.map Prod.fst).Nodup
  pids : (ps.map Shown.pid).Nodup
  shown : ∀ p ∈ ps, p.entry ∈ entries
  other : ∀ e ∈ entries, (∃ p ∈ ps, e = p.entry) ∨ e.1 = [] ∨ ¬ e.1.all Char.isDigit ∨
    e.2 = none ∨ e.2 = some []

/-- What a reading has of a process. -/
def Shown.item (p : Shown) : ℕ × (List Char × ℤ) := (p.pid, p.comm, p.ticks)

theorem readEntry_entry (p : Shown) : readEntry p.entry = some p.item := by
  have hdigits : (Nat.toDigits 10 p.pid).all Char.isDigit :=
    List.all_eq_true.2 fun c hc => isDigit_of_mem hc
  have hkept : ((some p.statText).filter fun s => !s.isEmpty) = some p.statText := by
    simp [Shown.statText]
  rw [readEntry, Shown.entry, if_pos ⟨Nat.toDigits_ne_nil, hdigits⟩, hkept]
  simp [parse_statText, Shown.item, Nat.ofDigitChars_ten_toDigits]

/-- **A reading has every process once.** -/
theorem hostProcesses_shown {entries : List ProcEntry} {ps : List Shown} (h : Shows entries ps) :
    (hostProcesses entries).Perm (ps.map Shown.item) := by
  have hread : ∀ e ∈ entries, ∀ x, readEntry e = some x → ∃ p ∈ ps, e = p.entry ∧ x = p.item := by
    intro e he x hx
    rcases h.other e he with ⟨p, hp, rfl⟩ | hnot | hnot | hnot | hnot
    · exact ⟨p, hp, rfl, Option.some.inj (hx.symm.trans (readEntry_entry p))⟩
    all_goals simp [readEntry, hnot, Option.filter] at hx
  have hkeys : ((entries.filterMap readEntry).map Prod.fst).Nodup := by
    rw [List.Nodup, List.pairwise_map, List.pairwise_filterMap]
    refine (List.pairwise_map.1 h.names).imp_of_mem fun {e e'} he he' hne x hx x' hx' heq => ?_
    obtain ⟨p, hp, rfl, rfl⟩ := hread e he x hx
    obtain ⟨p', hp', rfl, rfl⟩ := hread e' he' x' hx'
    exact hne (congrArg (Nat.toDigits 10) heq)
  rw [hostProcesses, Dicts.ofItems_of_nodup hkeys]
  have hitems : ((ps.map Shown.item).map Prod.fst).Nodup := by
    rw [List.map_map]
    exact h.pids
  rw [List.perm_ext_iff_of_nodup (List.Nodup.of_map _ hkeys) (List.Nodup.of_map _ hitems)]
  intro x
  rw [List.mem_filterMap, List.mem_map]
  constructor
  · rintro ⟨e, he, hx⟩
    obtain ⟨p, hp, -, rfl⟩ := hread e he x hx
    exact ⟨p, hp, rfl⟩
  · rintro ⟨p, hp, rfl⟩
    exact ⟨_, h.shown p hp, readEntry_entry p⟩

/-! ## The attribution -/

section

variable (clkTck : ℕ) (exclude : List ℕ) (wallS : ℚ) (labels : List (ℕ × List Char))

/-- The ticks that `q` spent since the reading of `A`, when it was alive then. -/
def spent (A : List Shown) (q : Shown) : ℤ :=
  match A.find? fun p => p.pid = q.pid with
  | some p => max 0 (q.ticks - p.ticks)
  | none => 0

/-- The same, in cores. -/
def cores (A : List Shown) (q : Shown) : ℚ := (spent A q : ℤ) / clkTck / wallS

def nameOf (q : Shown) : List Char := (Dicts.get labels q.pid).getD q.comm

/-- The processes that the harness does not know as its own. -/
def foreign (B : List Shown) : List Shown := B.filter fun q => q.pid ∉ exclude

/-- The cores of the processes of a name. -/
def nameCores (A B : List Shown) (name : List Char) : ℚ :=
  (((foreign exclude B).filter fun q => nameOf labels q = name).map (cores clkTck wallS A)).sum

/-- What an attribution says of the processes alive at the two readings.  What is listed is rounded
to thousandths; what is compared is not. -/
structure Exact (A B : List Shown) (limit : ℕ) (floor : ℚ) (r : Attribution) : Prop where
  total : r.processesCores = ((foreign exclude B).map (cores clkTck wallS A)).sum
  named : ∀ e ∈ r.top, e.2 = roundTo 3 (nameCores clkTck exclude wallS labels A B e.1) ∧
    floor ≤ nameCores clkTck exclude wallS labels A B e.1
  close : ∀ e ∈ r.top, |e.2 - nameCores clkTck exclude wallS labels A B e.1| ≤ 1 / 2000
  once : (r.top.map Prod.fst).Nodup
  sorted : r.top.Pairwise fun e e' => e'.2 ≤ e.2 ∧
    nameCores clkTck exclude wallS labels A B e'.1 ≤ nameCores clkTck exclude wallS labels A B e.1
  short : r.top.length ≤ limit
  greatest : ∀ name, name ∉ r.top.map Prod.fst →
    nameCores clkTck exclude wallS labels A B name < floor ∨ r.top.length = limit ∧
      ∀ e ∈ r.top, nameCores clkTck exclude wallS labels A B name ≤
        nameCores clkTck exclude wallS labels A B e.1

variable {clkTck exclude wallS labels} {A B : List Shown}

theorem get_hostProcesses {entries : List ProcEntry} (h : Shows entries A) (pid : ℕ) :
    Dicts.get (hostProcesses entries) pid =
      (A.find? fun p => p.pid = pid).map fun p => (p.comm, p.ticks) := by
  have hperm := hostProcesses_shown h
  have hkeys : ((hostProcesses entries).map Prod.fst).Nodup := Dicts.nodup_keys_ofItems _
  cases hfind : A.find? fun p => p.pid = pid with
  | none =>
    rw [Option.map_none, Dicts.get_eq_none_iff, (hperm.map Prod.fst).mem_iff, List.map_map]
    intro hmem
    obtain ⟨p, hp, heq⟩ := List.mem_map.1 hmem
    exact List.find?_eq_none.1 hfind p hp (decide_eq_true heq)
  | some p =>
    have hpid : p.pid = pid := by simpa using List.find?_some hfind
    rw [Option.map_some]
    refine Dicts.get_of_mem hkeys (hperm.mem_iff.2 ?_)
    exact List.mem_map.2 ⟨p, List.mem_of_find?_eq_some hfind, by rw [Shown.item, hpid]⟩

/-- A process counts when it is not excluded and spent something. -/
theorem usedBy_item (hclk : 0 < clkTck) (hwall : 0 < wallS) {entries : List ProcEntry}
    (h : Shows entries A) (q : Shown) :
    usedBy clkTck (hostProcesses entries) exclude wallS labels q.item =
      if q.pid ∉ exclude ∧ cores clkTck wallS A q ≠ 0 then
        some (nameOf labels q, cores clkTck wallS A q)
      else none := by
  have hclk' : (0 : ℚ) < clkTck := by exact_mod_cast hclk
  rw [usedBy, Shown.item]
  by_cases hex : q.pid ∈ exclude
  · simp [hex]
  · rw [if_neg hex, get_hostProcesses h]
    unfold cores spent
    cases A.find? fun p => p.pid = q.pid with
    | none => simp
    | some p =>
      rcases le_or_gt (q.ticks - p.ticks) 0 with hle | hlt
      · have hused : ¬ 0 < ((q.ticks - p.ticks : ℤ) : ℚ) / clkTck / wallS := by
          have hcast : ((q.ticks - p.ticks : ℤ) : ℚ) ≤ 0 := by exact_mod_cast hle
          exact not_lt.2 (div_nonpos_of_nonpos_of_nonneg
            (div_nonpos_of_nonpos_of_nonneg hcast hclk'.le) hwall.le)
        simp only [Option.map_some, Option.bind_some, if_neg hused, max_eq_left hle]
        simp
      · have hused : 0 < ((q.ticks - p.ticks : ℤ) : ℚ) / clkTck / wallS := by
          have hcast : (0 : ℚ) < ((q.ticks - p.ticks : ℤ) : ℚ) := by exact_mod_cast hlt
          positivity
        simp only [Option.map_some, Option.bind_some, if_pos hused, max_eq_right hlt.le]
        rw [if_pos ⟨hex, hused.ne'⟩, nameOf]

/-- What the processes that count add up to, over those of which `keep` holds. -/
theorem sum_used (keep : List Char → Prop) [DecidablePred keep] (B : List Shown) :
    (((B.filterMap fun q => if q.pid ∉ exclude ∧ cores clkTck wallS A q ≠ 0 then
        some (nameOf labels q, cores clkTck wallS A q) else none).filter fun e => keep e.1).map
      Prod.snd).sum =
    (((foreign exclude B).filter fun q => keep (nameOf labels q)).map
      (cores clkTck wallS A)).sum := by
  induction B with
  | nil => rfl
  | cons q B ih =>
    rw [foreign] at ih ⊢
    by_cases hex : q.pid ∈ exclude
    · rw [List.filterMap_cons_none (by simp [hex]), List.filter_cons_of_neg (by simp [hex]), ih]
    · rw [List.filter_cons_of_pos (by simp [hex])]
      by_cases hzero : cores clkTck wallS A q = 0
      · rw [List.filterMap_cons_none (by simp [hzero]), ih]
        by_cases hkeep : keep (nameOf labels q)
        · rw [List.filter_cons_of_pos (by simp [hkeep]), List.map_cons, List.sum_cons, hzero,
            zero_add]
        · rw [List.filter_cons_of_neg (by simp [hkeep])]
      · rw [List.filterMap_cons_some (by rw [if_pos ⟨hex, hzero⟩])]
        by_cases hkeep : keep (nameOf labels q)
        · rw [List.filter_cons_of_pos (by simp [hkeep]), List.filter_cons_of_pos (by simp [hkeep]),
            List.map_cons, List.sum_cons, List.map_cons, List.sum_cons, ih]
        · rw [List.filter_cons_of_neg (by simp [hkeep]), List.filter_cons_of_neg (by simp [hkeep]),
            ih]

/-- The cores under a name. -/
theorem mem_byName (hclk : 0 < clkTck) (hwall : 0 < wallS) {entries entries' : List ProcEntry}
    (hA : Shows entries A) (hB : Shows entries' B) {limit : ℕ} {floor : ℚ} {r : Attribution}
    (hr : attributed clkTck (hostProcesses entries) (hostProcesses entries') exclude wallS
      labels limit floor = r) :
    (r.byName.map Prod.fst).Nodup ∧
      r.processesCores = ((foreign exclude B).map (cores clkTck wallS A)).sum ∧
      (∀ e ∈ r.byName, e.2 = nameCores clkTck exclude wallS labels A B e.1) ∧
      ∀ name, name ∉ r.byName.map Prod.fst →
        nameCores clkTck exclude wallS labels A B name = 0 := by
  subst hr
  -- The processes that count, in the order of the list of processes.
  have hperm : ((hostProcesses entries').filterMap
      (usedBy clkTck (hostProcesses entries) exclude wallS labels)).Perm
      (B.filterMap fun q => if q.pid ∉ exclude ∧ cores clkTck wallS A q ≠ 0 then
        some (nameOf labels q, cores clkTck wallS A q) else none) := by
    refine ((hostProcesses_shown hB).filterMap _).trans (List.Perm.of_eq ?_)
    rw [List.filterMap_map]
    exact List.filterMap_congr fun q _ => usedBy_item hclk hwall hA q
  have hnamed : ∀ name, ((((hostProcesses entries').filterMap
      (usedBy clkTck (hostProcesses entries) exclude wallS labels)).filter fun e =>
        e.1 = name).map Prod.snd).sum = nameCores clkTck exclude wallS labels A B name := by
    intro name
    rw [((hperm.filter _).map _).sum_eq, sum_used fun n => n = name]
    rfl
  rw [attributed]
  dsimp only
  refine ⟨Dicts.nodup_keys_gather _ _ _ _, ?_, ?_, ?_⟩
  · have hall := @sum_used clkTck exclude wallS labels A (fun _ => True) _ B
    simp only [decide_true, List.filter_true] at hall
    rw [← hall, ← (hperm.map _).sum_eq]
    exact Dicts.sum_gather Prod.fst Prod.snd _
  · rintro ⟨name, t⟩ he
    have hget := Dicts.get_of_mem (Dicts.nodup_keys_gather _ _ _ _) he
    rw [Dicts.get_gather] at hget
    split at hget
    · rw [← hnamed, ← Option.some.inj hget, List.sum_eq_foldl, List.foldl_map]
    · cases hget
  · intro name hname
    rw [← hnamed]
    have hnone : ∀ e ∈ (hostProcesses entries').filterMap
        (usedBy clkTck (hostProcesses entries) exclude wallS labels), ¬ e.1 = name :=
      fun e he heq => hname (Dicts.mem_keys_gather.2 ⟨e, he, heq⟩)
    rw [List.filter_eq_nil_iff.2 (by simpa using hnone)]
    rfl

/-- **What the processes that live through the window spend is attributed, once, to their
names**; the names that are listed use the most. -/
theorem attributed_exact (hclk : 0 < clkTck) (hwall : 0 < wallS) {entries entries' : List ProcEntry}
    (hA : Shows entries A) (hB : Shows entries' B) (limit : ℕ) {floor : ℚ} (hfloor : 0 < floor) :
    Exact clkTck exclude wallS labels A B limit floor
      (attributed clkTck (hostProcesses entries) (hostProcesses entries') exclude wallS labels limit
        floor) := by
  generalize hr : attributed clkTck (hostProcesses entries) (hostProcesses entries') exclude wallS
    labels limit floor = r
  obtain ⟨hnodup, htotal, hnamed, hnone⟩ := mem_byName hclk hwall hA hB hr
  have hperm := List.mergeSort_perm r.byName fun x y => -x.2 ≤ -y.2
  have hsorted : (r.byName.mergeSort fun x y => -x.2 ≤ -y.2).Pairwise fun e e' => e'.2 ≤ e.2 :=
    (Grouping.sorted_mergeSort (fun e : List Char × ℚ => -e.2) r.byName).imp neg_le_neg_iff.1
  have hnodup' := (hperm.map Prod.fst).nodup_iff.2 hnodup
  have hmem : ∀ e, e ∈ r.byName.mergeSort (fun x y => -x.2 ≤ -y.2) ↔ e ∈ r.byName := fun e =>
    hperm.mem_iff
  have htop : r.top = (((r.byName.mergeSort fun x y => -x.2 ≤ -y.2).take limit).filter
      fun e => floor ≤ e.2).map fun e => (e.1, roundTo 3 e.2) := by
    rw [← hr, attributed]
  generalize r.byName.mergeSort (fun x y => -x.2 ≤ -y.2) = ranked at htop hsorted hnodup' hmem
  generalize hkept : (ranked.take limit).filter (fun e => floor ≤ e.2) = kept at htop
  have hsub : kept.Sublist ranked := by
    rw [← hkept]
    exact List.filter_sublist.trans (List.take_sublist _ _)
  have hcores : ∀ e ∈ kept, nameCores clkTck exclude wallS labels A B e.1 = e.2 := fun e he =>
    (hnamed e ((hmem e).1 (hsub.subset he))).symm
  have hlisted : ∀ e ∈ r.top, ∃ e' ∈ kept, e = (e'.1, roundTo 3 e'.2) := by
    intro e he
    rw [htop] at he
    obtain ⟨e', he', rfl⟩ := List.mem_map.1 he
    exact ⟨e', he', rfl⟩
  have hnames : r.top.map Prod.fst = kept.map Prod.fst := by
    rw [htop, List.map_map]
    rfl
  refine ⟨htotal, ?named, ?close, ?once, ?sorted, ?short, ?greatest⟩
  case named =>
    intro e he
    obtain ⟨e', he', rfl⟩ := hlisted e he
    dsimp only
    rw [hcores e' he']
    rw [← hkept] at he'
    exact ⟨rfl, of_decide_eq_true (List.mem_filter.1 he').2⟩
  case close =>
    intro e he
    obtain ⟨e', he', rfl⟩ := hlisted e he
    dsimp only
    rw [hcores e' he']
    exact (abs_roundTo_sub_le 3 e'.2).trans (by norm_num)
  case once =>
    rw [hnames]
    exact hnodup'.sublist (hsub.map _)
  case sorted =>
    rw [htop, List.pairwise_map]
    refine (hsorted.sublist hsub).imp_of_mem fun {e e'} he he' hle => ?_
    dsimp only
    rw [hcores e he, hcores e' he']
    exact ⟨roundTo_mono 3 hle, hle⟩
  case short =>
    rw [htop, List.length_map, ← hkept]
    exact (List.length_filter_le _ _).trans (List.length_take_le _ _)
  case greatest =>
    intro name hname
    rw [hnames] at hname
    rw [or_iff_not_imp_left, not_lt]
    intro hle
    -- The name is in the ranking, behind the limit.
    obtain ⟨e, he, rfl⟩ : ∃ e ∈ r.byName, e.1 = name := by
      by_contra hnot
      have hzero := hnone name fun hmem => hnot (List.mem_map.1 hmem)
      exact absurd hle (by rw [hzero]; exact not_le.2 hfloor)
    rw [← hnamed e he] at hle ⊢
    have hbehind : e ∈ ranked.drop limit := by
      have hsplit := (hmem e).2 he
      rw [← List.take_append_drop limit ranked, List.mem_append] at hsplit
      refine hsplit.resolve_left fun htake => hname ?_
      exact List.mem_map_of_mem (hkept ▸ List.mem_filter.2 ⟨htake, decide_eq_true hle⟩)
    rw [← List.take_append_drop limit ranked, List.pairwise_append] at hsorted
    have habove : ∀ e' ∈ ranked.take limit, e.2 ≤ e'.2 := fun e' he' =>
      hsorted.2.2 e' he' e hbehind
    have hfull : kept = ranked.take limit := by
      rw [← hkept]
      exact List.filter_eq_self.2 fun e' he' => decide_eq_true (hle.trans (habove e' he'))
    have hlength := List.length_pos_of_mem hbehind
    rw [List.length_drop] at hlength
    refine ⟨by rw [htop, List.length_map, hfull, List.length_take]; omega, fun e' he' => ?_⟩
    obtain ⟨x, hx, rfl⟩ := hlisted e' he'
    rw [hcores x hx]
    exact habove x (hfull ▸ hx)

end

/-- A process that shows nothing but its times. -/
def shownOf (pid : ℕ) (comm : List Char) (utime stime : ℕ)
    (small : utime < 2 ^ 64 ∧ stime < 2 ^ 64) : Shown where
  pid := pid
  comm := comm
  utime := utime
  stime := stime
  fields := List.replicate 11 ['0'] ++ [Nat.toDigits 10 utime, Nat.toDigits 10 stime]
  words := by
    have hdigits : ∀ n, Nat.toDigits 10 n ≠ [] ∧
        ∀ c ∈ Nat.toDigits 10 n, isSpace c = false ∧ c ≠ ')' := fun n =>
      ⟨Nat.toDigits_ne_nil, fun c hc => ⟨digit_not_space hc, fun heq =>
        absurd (isDigit_of_mem (heq ▸ hc)) (by decide)⟩⟩
    intro w hw
    rcases List.mem_append.1 hw with hw | hw
    · rw [(List.mem_replicate.1 hw).2]
      exact hdigits 0
    · rcases List.mem_pair.1 hw with rfl | rfl
      · exact hdigits utime
      · exact hdigits stime
  hasUtime := rfl
  hasStime := rfl
  small := small

/-- The orchestrator and a process with a parenthesis in its name, which spends half a second. -/
theorem attributed_exact_half : ∃ A B : List ProcEntry,
    (attributed 100 (hostProcesses A) (hostProcesses B) [1] 1 [] 5 (1 / 100)).processesCores =
      1 / 2 := by
  have hA : Shows [(shownOf 1 ['a'] 5 5 (by decide)).entry,
      (shownOf 7 ['b', ')', ' '] 10 20 (by decide)).entry]
      [shownOf 1 ['a'] 5 5 (by decide), shownOf 7 ['b', ')', ' '] 10 20 (by decide)] :=
    ⟨by decide, by decide, by simp, fun e he => .inl (by simpa using he)⟩
  have hB : Shows [(shownOf 1 ['a'] 50 50 (by decide)).entry,
      (shownOf 7 ['b', ')', ' '] 30 50 (by decide)).entry]
      [shownOf 1 ['a'] 50 50 (by decide), shownOf 7 ['b', ')', ' '] 30 50 (by decide)] :=
    ⟨by decide, by decide, by simp, fun e he => .inl (by simpa using he)⟩
  have hexact : Exact 100 [1] 1 [] _ _ 5 (1 / 100) _ :=
    attributed_exact (by decide) one_pos hA hB 5 (by norm_num)
  refine ⟨_, _, hexact.total.trans ?_⟩
  norm_num [foreign, cores, spent, shownOf, Shown.ticks]

end Procstat

end Bench
