import MqttBench.Lib.Dicts
import MqttBench.Lib.Fallible
import MqttBench.Lib.Grouping
import MqttBench.Lib.PyText

/-!
# A physical core for each role

`physical_cpu_groups`, `allocate_cpuset` and `pin_current_process` of `bench/cpus.py`, on what
`/sys/devices/system/cpu` holds.

* `physicalCpuGroups`, `allocateCpuset`, `affinity` — the program.
* `cpuListText`, `mapM_partCpus` — the list format of the kernel is read back.
* `groups_cores` — the groups are the cores.
* `allocate_isolates` — **every role gets the whole of a core, and roles share one only when
  there are fewer cores than roles.**
-/

namespace Bench

open Grouping NumberText PyText

/-! ## The program -/

inductive CpuError
  | runtimeError (message : String)
  | zeroDivision
  deriving DecidableEq

/-- An entry of `/sys/devices/system/cpu`, with what its `topology/core_cpus_list` holds. -/
abbrev CpuEntry := List Char × Option (List Char)

/-- `range(a, b + 1)`. -/
def rangeTo (a b : ℤ) : List ℤ := (List.range (b + 1 - a).toNat).map fun i : ℕ => a + (i : ℤ)

/-- A part of a list between commas. -/
def partCpus (part : List Char) : Option (List ℤ) :=
  if '-' ∈ part then do
    let a ← int (part.takeWhile (· ≠ '-'))
    let b ← int ((part.dropWhile (· ≠ '-')).tail)
    pure (rangeTo a b)
  else do
    let cpu ← int part
    pure [cpu]

/-- `siblings` of an entry; an empty file does not count. -/
def siblingsOf (cpu : ℤ) (text : Option (List Char)) : Option (List ℤ) := do
  let text := (text.filter fun s => !s.isEmpty).getD (toString cpu).toList
  let parts ← ((strip text).splitOn ',').mapM partCpus
  pure parts.flatten

/-- The number of an entry `cpu<number>`. -/
def entryCpu (e : CpuEntry) : Option (ℤ × Option (List Char)) :=
  match e.1 with
  | 'c' :: 'p' :: 'u' :: digits =>
    if digits ≠ [] ∧ digits.all Char.isDigit then some ((Nat.ofDigitChars 10 digits 0 : ℕ), e.2)
    else none
  | _ => none

/-- A frozenset, by its elements in order. -/
def frozenset (xs : List ℤ) : List ℤ := (distinct xs).mergeSort (· ≤ ·)

/-- `physical_cpu_groups()`: `none` for the entries says that there is no such directory, and as a
result it is `ValueError` or `IndexError`. -/
def physicalCpuGroups (entries : Option (List CpuEntry)) (cpuCount : ℕ) : Option (List (List ℤ)) :=
  match entries with
  | none => some ((List.range (max 1 cpuCount)).map fun i : ℕ => [(i : ℤ)])
  | some entries => do
    let found := (entries.mergeSort fun e f => e.1 ≤ f.1).filterMap entryCpu
    let siblings ← found.mapM fun e => siblingsOf e.1 e.2
    let unique := Dicts.ofItems (siblings.map fun g => (frozenset g, g.mergeSort (· ≤ ·)))
    -- `g[0]` of an empty group raises.
    guard ([] ∉ unique.map Prod.snd)
    pure ((unique.map Prod.snd).mergeSort fun g g' => g.headD 0 ≤ g'.headD 0)

/-- `",".join(str(c) for c in group)`. -/
def cpusetText (group : List ℤ) : List Char :=
  [','].intercalate (group.map fun c => (toString c).toList)

/-- `allocate_cpuset(roles, strict=strict)`, of the groups. -/
def allocateCpuset (groups : List (List ℤ)) (roles : List String) (strict : Bool) :
    Except CpuError (List (String × List Char)) :=
  if strict ∧ groups.length < roles.length then
    .error (.runtimeError s!"need {roles.length} physical cores (one per role), found {groups.length}")
  else if groups = [] ∧ roles ≠ [] then .error .zeroDivision
  else .ok (Dicts.ofItems (roles.zipIdx.map fun x =>
    (x.1, cpusetText (groups.getD (x.2 % groups.length) []))))

/-- The roles of a session. -/
def sessionRoles (sampled : Bool) : List String :=
  let roles := ["broker", "sut", "peer", "orch"]
  if sampled then roles ++ ["profiler"] else roles

/-- The set that `pin_current_process` asks for. -/
def affinity (cpuset : List Char) : Option (List ℤ) := do
  let cpus ← ((cpuset.splitOn ',').filter fun x => strip x ≠ []).mapM int
  pure (distinct cpus)

/-! ## Lists of processors -/

/-- A range of a list, as the kernel writes it. -/
def rangeText (r : ℕ × ℕ) : List Char :=
  if r.1 = r.2 then Nat.toDigits 10 r.1
  else Nat.toDigits 10 r.1 ++ '-' :: Nat.toDigits 10 r.2

/-- A line of ranges. -/
def cpuListText (rs : List (ℕ × ℕ)) : List Char := [','].intercalate (rs.map rangeText) ++ ['\n']

/-- The processors of a list of ranges. -/
def cpusOf (rs : List (ℕ × ℕ)) : List ℕ := rs.flatMap fun r => List.range' r.1 (r.2 + 1 - r.1)

theorem rangeTo_natCast (a b : ℕ) :
    rangeTo a b = (List.range' a (b + 1 - a)).map ((↑) : ℕ → ℤ) := by
  have hlength : ((b : ℤ) + 1 - a).toNat = b + 1 - a := by omega
  rw [rangeTo, hlength, List.range'_eq_map_range, List.map_map]
  exact List.map_congr_left fun i _ => by simp

theorem partCpus_rangeText {r : ℕ × ℕ} (h1 : r.1 < 2 ^ 64) (h2 : r.2 < 2 ^ 64) :
    partCpus (rangeText r) = some ((List.range' r.1 (r.2 + 1 - r.1)).map ((↑) : ℕ → ℤ)) := by
  have hdash : ∀ n, '-' ∉ Nat.toDigits 10 n := fun n hn =>
    absurd (isDigit_of_mem hn) (by decide)
  rw [rangeText]
  split
  · next heq =>
    rw [partCpus, if_neg (hdash _), int_number h1, heq]
    simp
  · have hother : ∀ c ∈ Nat.toDigits 10 r.1, decide (c ≠ '-') = true := fun c hc =>
      decide_eq_true fun heq => hdash _ (heq ▸ hc)
    rw [partCpus, if_pos (by simp), List.takeWhile_append_of_pos hother,
      List.dropWhile_append_of_pos hother]
    simp [int_number h1, int_number h2, rangeTo_natCast]

theorem plain_rangeText {r : ℕ × ℕ} {c : Char} (hc : c ∈ rangeText r) :
    c ≠ ',' ∧ isSpace c = false := by
  have hdigit : ∀ n, ∀ c ∈ Nat.toDigits 10 n, c ≠ ',' ∧ isSpace c = false := fun n c hc =>
    ⟨fun heq => absurd (isDigit_of_mem (heq ▸ hc)) (by decide), digit_not_space hc⟩
  rw [rangeText] at hc
  split at hc
  · exact hdigit _ c hc
  · rcases List.mem_append.1 hc with hc | hc
    · exact hdigit _ c hc
    · rcases List.mem_cons.1 hc with rfl | hc
      · exact ⟨by decide, by decide⟩
      · exact hdigit _ c hc

/-- **The list format of the kernel is read back.** -/
theorem mapM_partCpus {rs : List (ℕ × ℕ)} (hne : rs ≠ [])
    (hrs : ∀ r ∈ rs, r.1 < 2 ^ 64 ∧ r.2 < 2 ^ 64) {rest : List Char}
    (hrest : ∀ c ∈ rest, isSpace c = true) :
    ((strip ([','].intercalate (rs.map rangeText) ++ rest)).splitOn ',').mapM partCpus =
      some (rs.map fun r => (List.range' r.1 (r.2 + 1 - r.1)).map ((↑) : ℕ → ℤ)) := by
  have hplain : ∀ c ∈ [','].intercalate (rs.map rangeText), isSpace c = false := by
    intro c hc
    rcases mem_intercalate hc with rfl | ⟨part, hpart, hc⟩
    · decide
    · obtain ⟨r, -, rfl⟩ := List.mem_map.1 hpart
      exact (plain_rangeText hc).2
  have hnone : ∀ c ∈ ([] : List Char), isSpace c = true := nofun
  have hstrip : strip ([','].intercalate (rs.map rangeText) ++ rest) =
      [','].intercalate (rs.map rangeText) :=
    strip_padded hnone (fun c hc => hplain c (List.mem_of_head? hc))
      (fun c hc => hplain c (List.mem_of_getLast? hc)) hrest
  have hsplit : ([','].intercalate (rs.map rangeText)).splitOn ',' = rs.map rangeText := by
    refine List.splitOn_intercalate ',' (fun part hpart hcomma => ?_) (by simpa using hne)
    obtain ⟨r, -, rfl⟩ := List.mem_map.1 hpart
    exact (plain_rangeText hcomma).1 rfl
  rw [hstrip, hsplit, List.mapM_map]
  exact Fallible.mapM_eq_some fun r hr => partCpus_rangeText (hrs r hr).1 (hrs r hr).2

theorem siblingsOf_cpuListText (cpu : ℤ) {rs : List (ℕ × ℕ)} (hne : rs ≠ [])
    (hrs : ∀ r ∈ rs, r.1 < 2 ^ 64 ∧ r.2 < 2 ^ 64) :
    siblingsOf cpu (some (cpuListText rs)) = some ((cpusOf rs).map ((↑) : ℕ → ℤ)) := by
  have hkept : ((some (cpuListText rs)).filter fun s => !s.isEmpty) = some (cpuListText rs) := by
    simp [cpuListText]
  have hnewline : ∀ c ∈ ['\n'], isSpace c = true := by simp [isSpace]
  rw [siblingsOf, hkept, Option.getD_some, cpuListText, mapM_partCpus hne hrs hnewline, cpusOf,
    List.map_flatMap]
  rfl

/-- A set of processors is read back from its text. -/
theorem affinity_cpusetText {ns : List ℕ} (hne : ns ≠ []) (hnodup : ns.Nodup)
    (hsmall : ∀ n ∈ ns, n < 2 ^ 64) :
    affinity (cpusetText (ns.map ((↑) : ℕ → ℤ))) = some (ns.map ((↑) : ℕ → ℤ)) := by
  have htexts : (ns.map ((↑) : ℕ → ℤ)).map (fun c => (toString c).toList) =
      ns.map (Nat.toDigits 10) := by
    rw [List.map_map]
    exact List.map_congr_left fun n _ => toList_toString n
  have hsplit : ([','].intercalate (ns.map (Nat.toDigits 10))).splitOn ',' =
      ns.map (Nat.toDigits 10) := by
    refine List.splitOn_intercalate ',' (fun part hpart hcomma => ?_) (by simpa using hne)
    obtain ⟨n, -, rfl⟩ := List.mem_map.1 hpart
    exact absurd (isDigit_of_mem hcomma) (by decide)
  have hkept : (ns.map (Nat.toDigits 10)).filter (fun x => strip x ≠ []) =
      ns.map (Nat.toDigits 10) := by
    refine List.filter_eq_self.2 fun part hpart => decide_eq_true ?_
    obtain ⟨n, -, rfl⟩ := List.mem_map.1 hpart
    rw [strip_toDigits]
    exact Nat.toDigits_ne_nil
  have hread : (ns.map (Nat.toDigits 10)).mapM int = some (ns.map ((↑) : ℕ → ℤ)) := by
    rw [List.mapM_map]
    exact Fallible.mapM_eq_some fun n hn => int_number (hsmall n hn)
  have hdistinct : distinct (ns.map ((↑) : ℕ → ℤ)) = ns.map ((↑) : ℕ → ℤ) :=
    distinct_of_nodup (hnodup.map Nat.cast_injective)
  rw [affinity, cpusetText, htexts, hsplit, hkept, hread]
  exact congrArg some hdistinct

/-- A processor whose file says nothing is alone. -/
theorem siblingsOf_empty {c : ℕ} (h : c < 2 ^ 64) {text : Option (List Char)}
    (hempty : text = none ∨ text = some []) : siblingsOf c text = some [(c : ℤ)] := by
  have hdropped : (text.filter fun s => !s.isEmpty) = none := by
    rcases hempty with rfl | rfl <;> rfl
  have hnone : ∀ c ∈ ([] : List Char), isSpace c = true := nofun
  have hnumber : (toString (c : ℤ)).toList = [','].intercalate ([(c, c)].map rangeText) ++ [] := by
    rw [List.append_nil, List.map_singleton, List.intercalate_singleton, rangeText, if_pos rfl,
      toList_toString]
  rw [siblingsOf, hdropped, Option.getD_none, hnumber,
    mapM_partCpus (List.cons_ne_nil _ _) (by simpa using h) hnone]
  simp

/-! ## Cores -/

/-- The processors of the core of `cpu`. -/
def coreCpus (core : ℕ → ℕ) (cpus : List ℕ) (cpu : ℕ) : List ℤ :=
  (cpus.filter fun c => core c = core cpu).map ((↑) : ℕ → ℤ)

/-- What the kernel says of the processors `cpus`: the file of each lists the processors of its
core, or is empty when it is alone. -/
structure Topology (core : ℕ → ℕ) (cpus : List ℕ) (entries : List CpuEntry) : Prop where
  sorted : cpus.Pairwise (· < ·)
  small : ∀ c ∈ cpus, c < 2 ^ 64
  present : ∀ c ∈ cpus, ∃ e ∈ entries, ∃ text, entryCpu e = some ((c : ℤ), text)
  listed : ∀ e ∈ entries, ∀ cpu text, entryCpu e = some (cpu, text) → ∃ c ∈ cpus, cpu = c ∧
    (((text = none ∨ text = some []) ∧ cpus.filter (fun d => core d = core c) = [c]) ∨
      ∃ rs, text = some (cpuListText rs) ∧ cpusOf rs = cpus.filter (fun d => core d = core c) ∧
        ∀ r ∈ rs, r.1 < 2 ^ 64 ∧ r.2 < 2 ^ 64)

section

variable {core : ℕ → ℕ} {cpus : List ℕ} {entries : List CpuEntry}

theorem mem_coreCpus {c : ℕ} {d : ℤ} :
    d ∈ coreCpus core cpus c ↔ ∃ n ∈ cpus, core n = core c ∧ (n : ℤ) = d := by
  simp [coreCpus, and_assoc]

theorem coreCpus_sorted (h : cpus.Pairwise (· < ·)) (c : ℕ) :
    (coreCpus core cpus c).Pairwise (· < ·) :=
  List.pairwise_map.2 ((h.filter _).imp fun hlt => Int.ofNat_lt.2 hlt)

theorem self_mem_coreCpus {c : ℕ} (hc : c ∈ cpus) : (c : ℤ) ∈ coreCpus core cpus c :=
  mem_coreCpus.2 ⟨c, hc, rfl, rfl⟩

/-- A processor is of one core. -/
theorem core_eq_of_mem {c c' : ℕ} {d : ℤ} (h : d ∈ coreCpus core cpus c)
    (h' : d ∈ coreCpus core cpus c') : core c = core c' := by
  obtain ⟨n, -, hn, rfl⟩ := mem_coreCpus.1 h
  obtain ⟨n', -, hn', heq⟩ := mem_coreCpus.1 h'
  obtain rfl : n' = n := Int.ofNat_inj.1 heq
  exact hn.symm.trans hn'

theorem coreCpus_eq_iff {c c' : ℕ} (hc : c ∈ cpus) :
    coreCpus core cpus c = coreCpus core cpus c' ↔ core c = core c' := by
  have hself : (c : ℤ) ∈ coreCpus core cpus c := self_mem_coreCpus hc
  constructor
  · intro heq
    exact core_eq_of_mem hself (heq ▸ hself)
  · intro heq
    rw [coreCpus, heq, coreCpus]

theorem headD_mem_coreCpus {c : ℕ} (hc : c ∈ cpus) :
    (coreCpus core cpus c).headD 0 ∈ coreCpus core cpus c := by
  have hself : (c : ℤ) ∈ coreCpus core cpus c := self_mem_coreCpus hc
  cases hcpus : coreCpus core cpus c with
  | nil => rw [hcpus] at hself; cases hself
  | cons d ds => exact List.mem_cons_self

/-- What an entry lists. -/
theorem Topology.siblings (h : Topology core cpus entries) {e : CpuEntry} (he : e ∈ entries)
    {cpu : ℤ} {text : Option (List Char)} (hentry : entryCpu e = some (cpu, text)) :
    ∃ c ∈ cpus, cpu = c ∧ siblingsOf cpu text = some (coreCpus core cpus c) := by
  obtain ⟨c, hc, rfl, ⟨hempty, halone⟩ | ⟨rs, rfl, hall, hsmall⟩⟩ := h.listed e he cpu text hentry
  · refine ⟨c, hc, rfl, ?_⟩
    rw [siblingsOf_empty (h.small c hc) hempty, coreCpus, halone]
    rfl
  · have hne : rs ≠ [] := by
      rintro rfl
      have hself : c ∈ cpus.filter fun d => core d = core c :=
        List.mem_filter.2 ⟨hc, decide_eq_true rfl⟩
      rw [← hall] at hself
      cases hself
    refine ⟨c, hc, rfl, ?_⟩
    rw [siblingsOf_cpuListText _ hne hsmall, hall, coreCpus]

theorem frozenset_of_sorted {g : List ℤ} (h : g.Pairwise (· < ·)) :
    frozenset g = g ∧ g.mergeSort (· ≤ ·) = g := by
  have hsort : g.mergeSort (· ≤ ·) = g :=
    List.mergeSort_of_pairwise (h.imp fun hlt => decide_eq_true hlt.le)
  refine ⟨?_, hsort⟩
  rw [frozenset, distinct_of_nodup (h.imp ne_of_lt), hsort]

/-- The groups are the cores, by their first processors. -/
structure Grouped (core : ℕ → ℕ) (cpus : List ℕ) (groups : List (List ℤ)) : Prop where
  mem : ∀ g, g ∈ groups ↔ ∃ c ∈ cpus, g = coreCpus core cpus c
  sorted : groups.Pairwise fun g g' => g.headD 0 < g'.headD 0

/-- What the entries list, one element for each. -/
theorem Topology.found (h : Topology core cpus entries) :
    ∃ cs : List ℕ, (∀ c, c ∈ cs ↔ c ∈ cpus) ∧
      ((entries.mergeSort fun e f => e.1 ≤ f.1).filterMap entryCpu).mapM
        (fun e => siblingsOf e.1 e.2) = some (cs.map (coreCpus core cpus)) := by
  have hfound : ∀ a, a ∈ (entries.mergeSort fun e f => e.1 ≤ f.1).filterMap entryCpu ↔
      ∃ e ∈ entries, entryCpu e = some a := by simp [List.mem_mergeSort]
  generalize (entries.mergeSort fun e f => e.1 ≤ f.1).filterMap entryCpu = found at hfound
  have hread : ∀ a ∈ found, ((a.1.toNat : ℕ) : ℤ) = a.1 ∧ a.1.toNat ∈ cpus ∧
      siblingsOf a.1 a.2 = some (coreCpus core cpus a.1.toNat) := by
    intro a ha
    obtain ⟨e, he, hentry⟩ := (hfound a).1 ha
    obtain ⟨c, hc, hcpu, hsiblings⟩ := h.siblings he hentry
    rw [hcpu, Int.toNat_natCast]
    exact ⟨rfl, hc, hcpu ▸ hsiblings⟩
  refine ⟨found.map fun a => a.1.toNat, fun c => ⟨fun hc => ?_, fun hc => ?_⟩, ?_⟩
  · obtain ⟨a, ha, rfl⟩ := List.mem_map.1 hc
    exact (hread a ha).2.1
  · obtain ⟨e, he, text, hentry⟩ := h.present c hc
    exact List.mem_map.2 ⟨_, (hfound _).2 ⟨e, he, hentry⟩, Int.toNat_natCast c⟩
  · rw [List.map_map]
    exact Fallible.mapM_eq_some fun a ha => (hread a ha).2.2

/-- **The groups are the cores.** -/
theorem groups_cores (h : Topology core cpus entries) (cpuCount : ℕ) :
    ∃ groups, physicalCpuGroups (some entries) cpuCount = some groups ∧
      Grouped core cpus groups := by
  obtain ⟨cs, hcs, hfound⟩ := h.found
  have hitems : (cs.map (coreCpus core cpus)).map (fun g => (frozenset g, g.mergeSort (· ≤ ·))) =
      (cs.map (coreCpus core cpus)).map fun g => (g, g) := by
    refine List.map_congr_left fun g hg => ?_
    obtain ⟨c, -, rfl⟩ := List.mem_map.1 hg
    obtain ⟨hfrozen, hsort⟩ := frozenset_of_sorted (coreCpus_sorted h.sorted c)
    exact congrArg₂ Prod.mk hfrozen hsort
  obtain ⟨hnodup, hvalues⟩ := Dicts.values_ofItems_self (cs.map (coreCpus core cpus))
  have hmem : ∀ g, g ∈ (Dicts.ofItems ((cs.map (coreCpus core cpus)).map fun g => (g, g))).map
      Prod.snd ↔ ∃ c ∈ cpus, g = coreCpus core cpus c := by
    intro g
    rw [hvalues]
    simp [hcs, eq_comm]
  generalize hkeys : (Dicts.ofItems
    ((cs.map (coreCpus core cpus)).map fun g => (g, g))).map Prod.snd = keys at hnodup hmem
  have hempty : [] ∉ keys := by
    intro hnil
    obtain ⟨c, hc, heq⟩ := (hmem _).1 hnil
    have hself : (coreCpus core cpus c).headD 0 ∈ coreCpus core cpus c := headD_mem_coreCpus hc
    rw [← heq] at hself
    cases hself
  refine ⟨keys.mergeSort fun g g' => g.headD 0 ≤ g'.headD 0, ?_, ?_, ?_⟩
  · simp only [physicalCpuGroups, hfound, hitems, hkeys, Option.bind_eq_bind, Option.bind_some]
    simp [guard, hempty]
  · intro g
    rw [List.mem_mergeSort, hmem]
  · have hsorted := Grouping.sorted_mergeSort (fun g : List ℤ => g.headD 0) keys
    have hnodup' : (keys.mergeSort fun g g' => g.headD 0 ≤ g'.headD 0).Nodup :=
      (List.mergeSort_perm _ _).nodup_iff.2 hnodup
    refine (hsorted.and hnodup').imp_of_mem fun hg hg' ⟨hle, hne⟩ => lt_of_le_of_ne hle ?_
    rw [List.mem_mergeSort, hmem] at hg hg'
    obtain ⟨c, hc, rfl⟩ := hg
    obtain ⟨c', hc', rfl⟩ := hg'
    intro hhead
    have hcore := core_eq_of_mem (headD_mem_coreCpus hc) (hhead ▸ headD_mem_coreCpus hc')
    exact hne ((coreCpus_eq_iff hc).2 hcore)

/-! ## The roles -/

/-- The cores of some processors. -/
def cores (core : ℕ → ℕ) (cpus : List ℕ) : Finset ℕ := (cpus.map core).toFinset

/-- What the roles are given: the whole of a core each, in turn. -/
structure Assigned (core : ℕ → ℕ) (cpus : List ℕ) (roles : List String)
    (cpusets : List (String × List Char)) : Prop where
  keys : cpusets.map Prod.fst = roles
  whole : ∀ e ∈ cpusets, ∃ c ∈ cpus, affinity e.2 = some (coreCpus core cpus c)
  shared : ∀ i j (hi : i < cpusets.length) (hj : j < cpusets.length),
    cpusets[i].2 = cpusets[j].2 ↔ i % (cores core cpus).card = j % (cores core cpus).card
  apart : roles.length ≤ (cores core cpus).card → cpusets.Pairwise fun e e' =>
    ∀ xs ys, affinity e.2 = some xs → affinity e'.2 = some ys → xs.Disjoint ys

theorem Grouped.nodup {groups : List (List ℤ)} (h : Grouped core cpus groups) : groups.Nodup :=
  h.sorted.imp fun hlt heq => absurd hlt (by rw [heq]; exact lt_irrefl _)

theorem Grouped.length_eq {groups : List (List ℤ)} (h : Grouped core cpus groups) :
    groups.length = (cores core cpus).card := by
  have himage : groups.toFinset = (cores core cpus).image fun k =>
      (cpus.filter fun c => core c = k).map ((↑) : ℕ → ℤ) := by
    ext g
    rw [List.mem_toFinset, h.mem]
    simp [cores, coreCpus, eq_comm]
  rw [← List.toFinset_card_of_nodup h.nodup, himage, Finset.card_image_of_injOn]
  intro k hk k' hk' heq
  obtain ⟨c, hc, rfl⟩ := List.mem_map.1 (List.mem_toFinset.1 hk)
  obtain ⟨c', -, rfl⟩ := List.mem_map.1 (List.mem_toFinset.1 hk')
  exact (coreCpus_eq_iff hc).1 heq

theorem Topology.affinity (h : Topology core cpus entries) {c : ℕ} (hc : c ∈ cpus) :
    affinity (cpusetText (coreCpus core cpus c)) = some (coreCpus core cpus c) := by
  have hself : c ∈ cpus.filter fun d => core d = core c :=
    List.mem_filter.2 ⟨hc, decide_eq_true rfl⟩
  exact affinity_cpusetText (List.ne_nil_of_mem hself) ((h.sorted.imp ne_of_lt).filter _)
    fun d hd => h.small d (List.mem_filter.1 hd).1

theorem assigned_groups (h : Topology core cpus entries) {groups : List (List ℤ)}
    (hgroups : Grouped core cpus groups) (hne : 0 < groups.length) {roles : List String}
    (hroles : roles.Nodup) :
    Assigned core cpus roles (Dicts.ofItems (roles.zipIdx.map fun x =>
      (x.1, cpusetText (groups.getD (x.2 % groups.length) [])))) := by
  have hkeys : (roles.zipIdx.map fun x =>
      (x.1, cpusetText (groups.getD (x.2 % groups.length) []))).map Prod.fst = roles := by
    rw [List.map_map]
    exact List.zipIdx_map_fst 0 roles
  rw [Dicts.ofItems_of_nodup (by rwa [hkeys])]
  -- The group of the `i`-th role, and a processor of it.
  have hlt : ∀ i, i % groups.length < groups.length := fun i => Nat.mod_lt i hne
  have hcpu : ∀ i, ∃ c ∈ cpus, groups.getD (i % groups.length) [] = coreCpus core cpus c := by
    intro i
    rw [List.getD_eq_getElem _ _ (hlt i)]
    exact (hgroups.mem _).1 (List.getElem_mem _)
  choose c hc hgroup using hcpu
  have hsame : ∀ i j, coreCpus core cpus (c i) = coreCpus core cpus (c j) ↔
      i % groups.length = j % groups.length := by
    intro i j
    rw [← hgroup, ← hgroup, List.getD_eq_getElem _ _ (hlt i), List.getD_eq_getElem _ _ (hlt j),
      hgroups.nodup.getElem_inj_iff]
  refine ⟨hkeys, ?_, ?_, ?_⟩
  · intro e he
    obtain ⟨x, -, rfl⟩ := List.mem_map.1 he
    exact ⟨c x.2, hc x.2, by rw [hgroup, h.affinity (hc x.2)]⟩
  · intro i j hi hj
    rw [← hgroups.length_eq, ← hsame]
    simp only [List.getElem_map, List.getElem_zipIdx, zero_add, hgroup]
    refine ⟨fun heq => ?_, fun heq => heq ▸ rfl⟩
    exact Option.some.inj ((h.affinity (hc i)).symm.trans (heq ▸ h.affinity (hc j)))
  · intro hroom
    rw [List.pairwise_iff_getElem]
    intro i j hi hj hij xs ys hxs hys d hx hy
    rw [← hgroups.length_eq] at hroom
    simp only [List.getElem_map, List.getElem_zipIdx, zero_add, hgroup, h.affinity (hc _),
      Option.some.injEq] at hxs hys
    subst hxs hys
    have hindex := (hsame i j).1 ((coreCpus_eq_iff (hc i)).2 (core_eq_of_mem hx hy))
    simp only [List.length_map, List.length_zipIdx] at hi hj
    rw [Nat.mod_eq_of_lt (hi.trans_le hroom), Nat.mod_eq_of_lt (hj.trans_le hroom)] at hindex
    exact hij.ne hindex

/-- **Every role gets the whole of a core.**  The groups are the cores.  Where cores may not be shared
and there are too few, nothing is given; otherwise the roles take the cores in turn, so that two
have the same only when there are fewer cores than roles. -/
theorem allocate_isolates (h : Topology core cpus entries) (hne : cpus ≠ []) (cpuCount : ℕ)
    {roles : List String} (hroles : roles.Nodup) (strict : Bool) :
    ∃ groups, physicalCpuGroups (some entries) cpuCount = some groups ∧
      Grouped core cpus groups ∧ groups.length = (cores core cpus).card ∧
      if strict = true ∧ (cores core cpus).card < roles.length then
        allocateCpuset groups roles strict = .error (.runtimeError
          s!"need {roles.length} physical cores (one per role), found {(cores core cpus).card}")
      else ∃ cpusets, allocateCpuset groups roles strict = .ok cpusets ∧
        Assigned core cpus roles cpusets := by
  obtain ⟨groups, hread, hgroups⟩ := groups_cores h cpuCount
  refine ⟨groups, hread, hgroups, hgroups.length_eq, ?_⟩
  rw [allocateCpuset, ← hgroups.length_eq]
  split
  · rfl
  · obtain ⟨c, hc⟩ := List.exists_mem_of_ne_nil cpus hne
    have hmem : coreCpus core cpus c ∈ groups := (hgroups.mem _).2 ⟨c, hc, rfl⟩
    rw [if_neg fun hempty => List.ne_nil_of_mem hmem hempty.1]
    exact ⟨_, rfl, assigned_groups h hgroups (List.length_pos_of_mem hmem) hroles⟩

end

/-- An entry of a host with two processors for each of four cores. -/
def fourCoresEntry (c : ℕ) : CpuEntry :=
  (['c', 'p', 'u', Nat.digitChar c], some (cpuListText [(c % 4, c % 4), (c % 4 + 4, c % 4 + 4)]))

def fourCores : List CpuEntry :=
  (['c', 'p', 'u', 'i', 'd', 'l', 'e'], none) :: (List.range 8).map fourCoresEntry

theorem entryCpu_fourCoresEntry {c : ℕ} (hc : c < 8) :
    entryCpu (fourCoresEntry c) = some ((c : ℤ), (fourCoresEntry c).2) := by
  interval_cases c <;> rfl

theorem topology_fourCores : Topology (· % 4) (List.range 8) fourCores where
  sorted := List.pairwise_lt_range
  small c hc := (List.mem_range.1 hc).trans (by decide)
  present c hc := ⟨_, List.mem_cons_of_mem _ (List.mem_map_of_mem hc), _,
    entryCpu_fourCoresEntry (List.mem_range.1 hc)⟩
  listed := by
    intro e he cpu text hentry
    rcases List.mem_cons.1 he with rfl | he
    · cases hentry
    · obtain ⟨c, hc, rfl⟩ := List.mem_map.1 he
      have hlt := List.mem_range.1 hc
      rw [entryCpu_fourCoresEntry hlt] at hentry
      obtain ⟨rfl, rfl⟩ := Prod.mk.inj (Option.some.inj hentry)
      refine ⟨c, hc, rfl, .inr ⟨_, rfl, ?_, ?_⟩⟩
      · interval_cases c <;> decide
      · intro r hr
        rcases List.mem_pair.1 hr with rfl | rfl <;> dsimp only <;> omega

theorem allocate_isolates_fourCores : ∃ groups cpusets,
    physicalCpuGroups (some fourCores) 8 = some groups ∧
      allocateCpuset groups (sessionRoles false) true = .ok cpusets ∧
      Assigned (· % 4) (List.range 8) (sessionRoles false) cpusets := by
  obtain ⟨groups, hread, -, -, hgiven⟩ :=
    allocate_isolates topology_fourCores (by decide) 8 (by decide : (sessionRoles false).Nodup) true
  rw [if_neg (by decide)] at hgiven
  obtain ⟨cpusets, hok, hassigned⟩ := hgiven
  exact ⟨groups, cpusets, hread, hok, hassigned⟩

end Bench
