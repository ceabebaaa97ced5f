import Mathlib

/-!
# The CPU time of a process

`process` and `process_delta` of `bench/procstat.py`, and the histories of threads that the
kernel's counters are about.

* `Process` — the threads alive, with distinct ids, and the time of those that exited.
* `userNs_le_step`, `systemNs_le_step` — no event takes time back.
* `aliveNs_run` — what the exits between two readings take out of the sum over the threads.
* `ticks_cover` — the tick counters never miss more than the resolution.
* `process_delta_covers_iff` — **when the CPU time of a client is not under-counted.**
-/

namespace Bench

namespace Procstat

/-! ## The program -/

/-- The lines of `/proc/<pid>/status` that `process` looks for. -/
structure Status where
  rssKb : Option ℤ
  hwmKb : Option ℤ
  ctxVoluntary : Option ℤ
  ctxInvoluntary : Option ℤ

/-- What can be read of a process: of `/proc/<pid>/stat` the fields 11, 12 and 17 behind the
name, and of each `/proc/<pid>/task/<tid>/schedstat` the first field. -/
structure ProcFiles where
  stat : Option (ℤ × ℤ × ℤ)
  status : Status
  tasks : List (Option ℤ)

/-- What `process` returns. -/
structure Reading where
  utimeTicks : ℤ
  stimeTicks : ℤ
  threads : ℤ
  status : Status
  cpuNs : ℤ

/-- `process(pid)`. -/
def process (files : ProcFiles) : Option Reading :=
  match files.stat with
  | none => none
  | some (utimeTicks, stimeTicks, threads) =>
    some
      { utimeTicks, stimeTicks, threads
        status := files.status
        cpuNs := files.tasks.foldl (fun total text => total + text.getD 0) 0 }

/-- `cpu_source`. -/
inductive CpuSource
  | schedstat
  | ticks
  deriving DecidableEq

/-- What `process_delta` returns; its seconds are exact. -/
structure ProcessUse where
  cpuUserS : ℚ
  cpuSysS : ℚ
  cpuNs : ℤ
  cpuSource : CpuSource
  rssStartKb : Option ℤ
  rssEndKb : Option ℤ
  rssPeakKb : Option ℤ
  threads : ℤ
  ctxVoluntary : ℤ
  ctxInvoluntary : ℤ

/-- `int(x)`, towards zero. -/
def truncate (x : ℚ) : ℤ := if 0 ≤ x then ⌊x⌋ else ⌈x⌉

/-- `process_delta(a, b)` under `CLK_TCK`. -/
def processDelta (clkTck : ℕ) : Option Reading → Option Reading → Option ProcessUse
  | some a, some b =>
    let userS : ℚ := (b.utimeTicks - a.utimeTicks : ℤ) / clkTck
    let sysS : ℚ := (b.stimeTicks - a.stimeTicks : ℤ) / clkTck
    let cpuNs := b.cpuNs - a.cpuNs
    let (cpuNs, source) :=
      if cpuNs < 0 ∨ a.threads ≠ b.threads then (truncate ((userS + sysS) * 1000000000), .ticks)
      else (cpuNs, CpuSource.schedstat)
    some
      { cpuUserS := userS
        cpuSysS := sysS
        cpuNs
        cpuSource := source
        rssStartKb := a.status.rssKb
        rssEndKb := b.status.rssKb
        rssPeakKb := b.status.hwmKb
        threads := b.threads
        ctxVoluntary := b.status.ctxVoluntary.getD 0 - a.status.ctxVoluntary.getD 0
        ctxInvoluntary := b.status.ctxInvoluntary.getD 0 - a.status.ctxInvoluntary.getD 0 }
  | _, _ => none

/-! ## Threads -/

/-- A thread and the time it has run, in nanoseconds. -/
structure Thread where
  tid : ℕ
  user : ℕ
  system : ℕ

/-- All the time it has run. -/
def Thread.cpu (t : Thread) : ℕ := t.user + t.system

/-- A process: its threads, no two with the same id, and the time of those that exited. -/
structure Process where
  threads : List Thread
  nodup : (threads.map Thread.tid).Nodup
  exitedUser : ℕ
  exitedSystem : ℕ

/-- What may happen to a thread. -/
inductive ThreadEvent
  | start (tid : ℕ)
  | run (tid user system : ℕ)
  | exit (tid : ℕ)

namespace Process

/-- The threads with an id: at most one. -/
def having (p : Process) (tid : ℕ) : List Thread := p.threads.filter (·.tid = tid)

/-- The other threads. -/
def others (p : Process) (tid : ℕ) : List Thread := p.threads.filter (·.tid ≠ tid)

/-- A thread starts; an id in use is not given again. -/
def start (p : Process) (tid : ℕ) : Process :=
  if h : tid ∈ p.threads.map Thread.tid then p
  else
    { p with
      threads := p.threads ++ [⟨tid, 0, 0⟩]
      nodup := by
        rw [List.map_append, List.map_singleton]
        exact List.Nodup.append p.nodup (List.nodup_singleton tid)
          (List.disjoint_singleton.2 h) }

/-- A thread runs for some time. -/
def runThread (p : Process) (tid user system : ℕ) : Process :=
  { p with
    threads := p.threads.map fun t =>
      if t.tid = tid then { t with user := t.user + user, system := t.system + system } else t
    nodup := by
      have htids : (p.threads.map fun t => if t.tid = tid then
          { t with user := t.user + user, system := t.system + system } else t).map Thread.tid =
            p.threads.map Thread.tid := by
        rw [List.map_map]
        apply List.map_congr_left
        intro t _
        simp only [Function.comp_apply]
        split <;> rfl
      rw [htids]
      exact p.nodup }

/-- A thread exits, and the process keeps its time. -/
def exitThread (p : Process) (tid : ℕ) : Process where
  threads := p.others tid
  nodup := p.nodup.sublist (List.filter_sublist.map Thread.tid)
  exitedUser := p.exitedUser + ((p.having tid).map Thread.user).sum
  exitedSystem := p.exitedSystem + ((p.having tid).map Thread.system).sum

/-- One event. -/
def step (p : Process) : ThreadEvent → Process
  | .start tid => p.start tid
  | .run tid user system => p.runThread tid user system
  | .exit tid => p.exitThread tid

/-- A history. -/
def run (p : Process) (events : List ThreadEvent) : Process := events.foldl step p

/-- The time of the process in user mode. -/
def userNs (p : Process) : ℕ := p.exitedUser + (p.threads.map Thread.user).sum

/-- The time of the process in the kernel. -/
def systemNs (p : Process) : ℕ := p.exitedSystem + (p.threads.map Thread.system).sum

/-- The time of the process. -/
def totalNs (p : Process) : ℕ := p.userNs + p.systemNs

/-- The time of the threads alive. -/
def aliveNs (p : Process) : ℕ := (p.threads.map Thread.cpu).sum

/-- The time of the threads that exited. -/
def exitedNs (p : Process) : ℕ := p.exitedUser + p.exitedSystem

/-- Nanoseconds in ticks. -/
def ticks (clkTck ns : ℕ) : ℕ := ns * clkTck / 1000000000

/-- What the kernel shows of a process. -/
def files (p : Process) (clkTck : ℕ) (status : Status) : ProcFiles where
  stat := some (ticks clkTck p.userNs, ticks clkTck p.systemNs, p.threads.length)
  status := status
  tasks := p.threads.map fun t => some (t.cpu : ℤ)

/-- The time, over their whole lives, of the threads that exit in an event. -/
def lostAt (p : Process) : ThreadEvent → ℕ
  | .exit tid => ((p.having tid).map Thread.cpu).sum
  | _ => 0

/-- The time, over their whole lives, of the threads that exit in a history. -/
def lost (p : Process) : List ThreadEvent → ℕ
  | [] => 0
  | event :: events => p.lostAt event + lost (p.step event) events

end Process

/-- The resolution of the two tick counters, in nanoseconds. -/
def resolution (clkTck : ℕ) : ℕ := (2 * 1000000000 + clkTck - 1) / clkTck

/-! ## What a history does to the time -/

namespace Process

variable (p : Process)

theorem sum_having_add_sum_others (tid : ℕ) (f : Thread → ℕ) :
    ((p.having tid).map f).sum + ((p.others tid).map f).sum = (p.threads.map f).sum := by
  have hothers : p.others tid = p.threads.filter fun t => !decide (t.tid = tid) := by
    unfold others
    exact List.filter_congr fun t _ => decide_not
  rw [hothers, having, ← List.sum_append, ← List.map_append]
  exact ((List.filter_append_perm _ p.threads).map f).sum_eq

theorem sum_cpu (ts : List Thread) :
    (ts.map Thread.cpu).sum = (ts.map Thread.user).sum + (ts.map Thread.system).sum := by
  unfold Thread.cpu
  exact List.sum_map_add

/-- The time of a process is that of the threads alive and of those that exited. -/
theorem totalNs_eq : p.totalNs = p.aliveNs + p.exitedNs := by
  unfold totalNs userNs systemNs aliveNs exitedNs
  rw [sum_cpu]
  omega

theorem sum_start (tid : ℕ) {f : Thread → ℕ} (hf : f ⟨tid, 0, 0⟩ = 0) :
    ((p.start tid).threads.map f).sum = (p.threads.map f).sum := by
  unfold start
  split
  · rfl
  · rw [List.map_append, List.sum_append, List.map_singleton, List.sum_singleton, hf, add_zero]

theorem exited_start (tid : ℕ) : (p.start tid).exitedUser = p.exitedUser ∧
    (p.start tid).exitedSystem = p.exitedSystem := by
  unfold start
  split <;> exact ⟨rfl, rfl⟩

theorem sum_le_sum_runThread (tid user system : ℕ) {f : Thread → ℕ}
    (hf : ∀ t : Thread, f t ≤ f { t with user := t.user + user, system := t.system + system }) :
    (p.threads.map f).sum ≤ ((p.runThread tid user system).threads.map f).sum := by
  unfold runThread
  rw [List.map_map]
  apply List.sum_le_sum
  intro t _
  simp only [Function.comp_apply]
  split
  · exact hf t
  · exact le_rfl

/-- A time that no thread starts with, that running adds to and that an exit moves to the time of
the exited threads is never taken back. -/
theorem spent_le_step {exited : Process → ℕ} {f : Thread → ℕ} (hzero : ∀ tid, f ⟨tid, 0, 0⟩ = 0)
    (hrun : ∀ (t : Thread) (user system : ℕ),
      f t ≤ f { t with user := t.user + user, system := t.system + system })
    (hstart : ∀ tid, exited (p.start tid) = exited p)
    (hrunThread : ∀ tid user system, exited (p.runThread tid user system) = exited p)
    (hexit : ∀ tid, exited (p.exitThread tid) = exited p + ((p.having tid).map f).sum)
    (event : ThreadEvent) :
    exited p + (p.threads.map f).sum ≤
      exited (p.step event) + ((p.step event).threads.map f).sum := by
  cases event with
  | start tid =>
    change _ ≤ exited (p.start tid) + ((p.start tid).threads.map f).sum
    rw [hstart, p.sum_start tid (hzero tid)]
  | run tid user system =>
    have hsum := p.sum_le_sum_runThread tid user system fun t => hrun t user system
    change _ ≤ exited (p.runThread tid user system) + _
    rw [hrunThread]
    exact Nat.add_le_add_left hsum _
  | exit tid =>
    have hsum := p.sum_having_add_sum_others tid f
    change _ ≤ exited (p.exitThread tid) + ((p.others tid).map f).sum
    rw [hexit]
    omega

/-- **No event takes user time back.** -/
theorem userNs_le_step (event : ThreadEvent) : p.userNs ≤ (p.step event).userNs :=
  p.spent_le_step (fun _ => rfl) (fun _ _ _ => Nat.le_add_right _ _)
    (fun tid => (p.exited_start tid).1) (fun _ _ _ => rfl) (fun _ => rfl) event

/-- **No event takes system time back.** -/
theorem systemNs_le_step (event : ThreadEvent) : p.systemNs ≤ (p.step event).systemNs :=
  p.spent_le_step (fun _ => rfl) (fun _ _ _ => Nat.le_add_right _ _)
    (fun tid => (p.exited_start tid).2) (fun _ _ _ => rfl) (fun _ => rfl) event

/-- **An exit takes the whole life of its thread with it.** -/
theorem exitedNs_step (event : ThreadEvent) :
    (p.step event).exitedNs = p.exitedNs + p.lostAt event := by
  unfold exitedNs
  cases event with
  | start tid =>
    obtain ⟨huser, hsystem⟩ := p.exited_start tid
    change (p.start tid).exitedUser + (p.start tid).exitedSystem = _ + 0
    omega
  | run tid user system => rfl
  | exit tid =>
    have hcpu := sum_cpu (p.having tid)
    change p.exitedUser + ((p.having tid).map Thread.user).sum +
      (p.exitedSystem + ((p.having tid).map Thread.system).sum) =
        p.exitedUser + p.exitedSystem + ((p.having tid).map Thread.cpu).sum
    omega

theorem run_cons (event : ThreadEvent) (events : List ThreadEvent) :
    p.run (event :: events) = (p.step event).run events := rfl

theorem userNs_le_run (events : List ThreadEvent) : p.userNs ≤ (p.run events).userNs := by
  induction events generalizing p with
  | nil => exact le_rfl
  | cons event events ih => exact (p.userNs_le_step event).trans (ih _)

theorem systemNs_le_run (events : List ThreadEvent) : p.systemNs ≤ (p.run events).systemNs := by
  induction events generalizing p with
  | nil => exact le_rfl
  | cons event events ih => exact (p.systemNs_le_step event).trans (ih _)

theorem exitedNs_run (events : List ThreadEvent) :
    (p.run events).exitedNs = p.exitedNs + p.lost events := by
  induction events generalizing p with
  | nil => rfl
  | cons event events ih =>
    rw [run_cons, ih, exitedNs_step, lost, add_assoc]

/-- **What a history takes out of the sum over the threads alive** is the time of those that
exited, not only what they used since the first reading. -/
theorem aliveNs_run (events : List ThreadEvent) :
    (p.run events).aliveNs + p.lost events + p.totalNs = p.aliveNs + (p.run events).totalNs := by
  have hexited := p.exitedNs_run events
  rw [totalNs_eq, totalNs_eq, hexited]
  omega

end Process

/-! ## The readings -/

/-- A difference of ticks is less than a tick short. -/
theorem ticks_cover (clkTck : ℕ) {ns ns' : ℕ} (h : ns ≤ ns') :
    ((ns' : ℤ) - ns) * clkTck <
      ((Process.ticks clkTck ns' : ℤ) - Process.ticks clkTck ns + 1) * 1000000000 := by
  unfold Process.ticks
  have hmul : ns * clkTck ≤ ns' * clkTck := Nat.mul_le_mul_right _ h
  rw [sub_mul]
  push_cast
  omega

/-- Which of the two sources is taken. -/
theorem cpuNs_processDelta (clkTck : ℕ) (a b : Reading) :
    (processDelta clkTck (some a) (some b)).map ProcessUse.cpuNs =
      some (if b.cpuNs - a.cpuNs < 0 ∨ a.threads ≠ b.threads then
          truncate ((((b.utimeTicks - a.utimeTicks : ℤ) : ℚ) / clkTck +
            ((b.stimeTicks - a.stimeTicks : ℤ) : ℚ) / clkTck) * 1000000000)
        else b.cpuNs - a.cpuNs) := by
  unfold processDelta
  simp only [Option.map_some]
  split <;> rfl

theorem truncate_ticks {clkTck : ℕ} {user sys : ℤ} (h : 0 ≤ user + sys) :
    truncate (((user : ℚ) / clkTck + (sys : ℚ) / clkTck) * 1000000000) =
      (user + sys) * 1000000000 / clkTck := by
  have hnonneg : (0 : ℚ) ≤ (user : ℚ) + sys := by exact_mod_cast h
  have heq : ((user : ℚ) / clkTck + (sys : ℚ) / clkTck) * 1000000000 =
      (((user + sys) * 1000000000 : ℤ) : ℚ) / (clkTck : ℚ) := by
    push_cast
    ring
  unfold truncate
  rw [heq, if_pos, Rat.floor_intCast_div_natCast]
  rw [← heq, ← add_div]
  positivity

theorem foldl_tasks (ts : List Thread) (total : ℤ) :
    (ts.map fun t => some (t.cpu : ℤ)).foldl (fun total text => total + text.getD 0) total =
      total + (ts.map Thread.cpu).sum := by
  induction ts generalizing total with
  | nil => exact (add_zero total).symm
  | cons t ts ih =>
    rw [List.map_cons, List.foldl_cons, ih, List.map_cons, List.sum_cons, Option.getD_some]
    push_cast
    ring

/-- What a reading of a process shows. -/
theorem process_files (p : Process) (clkTck : ℕ) (status : Status) :
    process (p.files clkTck status) =
      some ⟨Process.ticks clkTck p.userNs, Process.ticks clkTck p.systemNs, p.threads.length,
        status, p.aliveNs⟩ := by
  have hsum := foldl_tasks p.threads 0
  rw [zero_add] at hsum
  unfold process Process.files Process.aliveNs
  rw [← hsum]

theorem le_resolution_mul {clkTck : ℕ} (hclk : 0 < clkTck) :
    2 * 1000000000 ≤ resolution clkTck * clkTck := by
  have hdiv := Nat.div_add_mod (2 * 1000000000 + clkTck - 1) clkTck
  have hmod := Nat.mod_lt (2 * 1000000000 + clkTck - 1) hclk
  unfold resolution
  rw [Nat.mul_comm _ clkTck]
  omega

/-- **The tick counters miss no more than the resolution.** -/
theorem ticks_cover_total {clkTck : ℕ} (hclk : 0 < clkTck) (p : Process)
    (events : List ThreadEvent) :
    ((p.run events).totalNs : ℤ) - p.totalNs - resolution clkTck ≤
      ((Process.ticks clkTck (p.run events).userNs - Process.ticks clkTck p.userNs : ℤ) +
        (Process.ticks clkTck (p.run events).systemNs - Process.ticks clkTck p.systemNs : ℤ)) *
          1000000000 / clkTck := by
  have huser := ticks_cover clkTck (p.userNs_le_run events)
  have hsystem := ticks_cover clkTck (p.systemNs_le_run events)
  have hresolution : (2 * 1000000000 : ℤ) ≤ resolution clkTck * clkTck := by
    exact_mod_cast le_resolution_mul hclk
  rw [Int.le_ediv_iff_mul_le (by exact_mod_cast hclk)]
  unfold Process.totalNs
  push_cast
  linarith

theorem ticks_mono (clkTck : ℕ) {ns ns' : ℕ} (h : ns ≤ ns') :
    Process.ticks clkTck ns ≤ Process.ticks clkTck ns' :=
  Nat.div_le_div_right (Nat.mul_le_mul_right _ h)

/-! ## The main result -/

/-- The CPU time that `process_delta` returns for a history between two readings is that of the
process, less at most the resolution. -/
def CpuCovered (clkTck : ℕ) (p : Process) (events : List ThreadEvent) (status status' : Status) :
    Prop :=
  ∃ use, processDelta clkTck (process (p.files clkTck status))
      (process ((p.run events).files clkTck status')) = some use ∧
    ((p.run events).totalNs : ℤ) - p.totalNs - resolution clkTck ≤ use.cpuNs

/-- **When the CPU time of a process is not under-counted**: when the numbers of threads differ,
when the threads that exited had run for longer than the process did between the readings, or
when they had run for no more than the resolution. -/
theorem process_delta_covers_iff {clkTck : ℕ} (hclk : 0 < clkTck) (p : Process)
    (events : List ThreadEvent) (status status' : Status) :
    CpuCovered clkTck p events status status' ↔
      (p.run events).threads.length ≠ p.threads.length ∨
        (p.run events).totalNs < p.totalNs + p.lost events ∨ p.lost events ≤ resolution clkTck := by
  have halive := p.aliveNs_run events
  obtain ⟨use, huse, hcpu⟩ := Option.map_eq_some_iff.1 (cpuNs_processDelta clkTck
    ⟨Process.ticks clkTck p.userNs, Process.ticks clkTck p.systemNs, p.threads.length, status,
      p.aliveNs⟩
    ⟨Process.ticks clkTck (p.run events).userNs, Process.ticks clkTck (p.run events).systemNs,
      (p.run events).threads.length, status', (p.run events).aliveNs⟩)
  have hcovered : CpuCovered clkTck p events status status' ↔
      ((p.run events).totalNs : ℤ) - p.totalNs - resolution clkTck ≤ use.cpuNs := by
    unfold CpuCovered
    rw [process_files, process_files, huse]
    simp
  rw [hcovered, hcpu]
  simp only
  by_cases hticks : ((p.run events).aliveNs : ℤ) - p.aliveNs < 0 ∨
      (p.threads.length : ℤ) ≠ (p.run events).threads.length
  · -- The tick counters are asked.
    have huser := ticks_mono clkTck (p.userNs_le_run events)
    have hsystem := ticks_mono clkTck (p.systemNs_le_run events)
    rw [if_pos hticks, truncate_ticks (by omega)]
    refine iff_of_true (ticks_cover_total hclk p events) ?_
    rcases hticks with hneg | hcount
    · right
      left
      omega
    · left
      omega
  · -- The sums over the threads alive differ by the time used less that of the exited threads.
    rw [if_neg hticks]
    rw [not_or, not_lt, not_not] at hticks
    obtain ⟨hnonneg, hcount⟩ := hticks
    omega

/-- A main thread and a worker. -/
def twoThreads : Process := ⟨[⟨1, 5000000000, 0⟩, ⟨2, 1000000000, 0⟩], by decide, 0, 0⟩

/-- A file without the lines looked for. -/
def noStatus : Status := ⟨none, none, none, none⟩

/-- The worker exits and is not replaced. -/
theorem process_delta_covers_exit :
    CpuCovered 100 twoThreads [.run 2 400000000 0, .run 1 1000000000 1000000000, .exit 2]
      noStatus noStatus :=
  (process_delta_covers_iff (by decide) twoThreads _ noStatus noStatus).2 (.inl (by decide))

/-- The worker exits and another one starts. -/
def replaced : List ThreadEvent :=
  [.run 2 400000000 0, .run 1 1000000000 1000000000, .exit 2, .start 3]

/-- Of 2.4 seconds, one is reported. -/
theorem process_delta_misses_replaced :
    ¬ CpuCovered 100 twoThreads replaced noStatus noStatus := by
  rintro ⟨use, huse, hle⟩
  have hcpu : (processDelta 100 (process (twoThreads.files 100 noStatus))
      (process ((twoThreads.run replaced).files 100 noStatus))).map ProcessUse.cpuNs =
        some 1000000000 := rfl
  have hreal : ((twoThreads.run replaced).totalNs : ℤ) - twoThreads.totalNs - resolution 100 =
      2380000000 := by decide
  rw [huse, Option.map_some, Option.some.injEq] at hcpu
  omega

end Procstat

end Bench
