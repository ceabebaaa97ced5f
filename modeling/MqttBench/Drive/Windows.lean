import MqttBench.Drive.CapacityAwaited
import MqttBench.Drive.CapacityNowait
import MqttBench.Drive.SendTimes

/-!
# The counters of the measured window

`Run.snapshot` of `bench/drive.py`, taken by the `Timer` thread of `bench/worker.py` while the
drive loop and the library go on counting: a snapshot reads one counter after another, so
what it holds was never there at one moment.  A window is the difference of two of them.

* `Snapshot.Between` — a torn snapshot lies between the counters before and after it.
* `Counts.window` — what that says of the difference of two snapshots.
* `window_counts` — **the difference counts what happened in the window**, exactly so for
  two of the loops, and up to one publish for the loop that counts before it calls.
-/

namespace Drive

open Runs

variable {σ α : Type*} {step : σ → α → σ → Prop} {run : σ → Run} {n : ℕ}

/-! ## Snapshots -/

/-- The counters of `run.snapshot()` that a drive loop writes; `received` and `unmatched` are those
of the callbacks. -/
structure Snapshot where
  sent : ℤ
  done : ℤ
  failed : ℤ
  rejected : ℤ
  skipped : ℤ

/-- `run.snapshot()`, begun in `s` and over in `s'`: the counters are read in the order of the
dictionary, and other threads step between any two reads. -/
def TakesSnapshot (step : σ → α → σ → Prop) (run : σ → Run) (s : σ) (snap : Snapshot)
    (s' : σ) : Prop :=
  ∃ t₁ t₂ t₃ t₄ t₅, Leads step s t₁ ∧ Leads step t₁ t₂ ∧ Leads step t₂ t₃ ∧ Leads step t₃ t₄ ∧
    Leads step t₄ t₅ ∧ Leads step t₅ s' ∧
    snap = ⟨(run t₁).sent, (run t₂).done, (run t₃).failed, (run t₄).rejected, (run t₅).skipped⟩

/-- What a thread does that takes `measure` and `finish`, the window's two snapshots: it begins
the first in `s₀`, ends it in `s₁`, begins the second in `s₂` and ends it in `s₃`. -/
structure TakesWindow (step : σ → α → σ → Prop) (run : σ → Run) (start : σ)
    (measure finish : Snapshot) (s₀ s₁ s₂ s₃ : σ) : Prop where
  reached : Leads step start s₀
  measure : TakesSnapshot step run s₀ measure s₁
  between : Leads step s₁ s₂
  finish : TakesSnapshot step run s₂ finish s₃

/-- A counter over a window: at least what was counted between the snapshots, at most what
was counted from the beginning of the first to the end of the second, and no less than
nothing; all of it up to `slack`. -/
structure Counts (f : σ → ℤ) (slack : ℤ) (s₀ s₁ s₂ s₃ : σ) (measure finish : ℤ) : Prop where
  atLeast : f s₂ - f s₁ - slack ≤ finish - measure
  atMost : finish - measure ≤ f s₃ - f s₀ + slack
  nonneg : -slack ≤ finish - measure

/-- A counter is read in one state. -/
theorem TakesSnapshot.reads {s s' : σ} {snap : Snapshot}
    (h : TakesSnapshot step run s snap s') :
    (∃ t, Leads step s t ∧ Leads step t s' ∧ snap.sent = (run t).sent) ∧
      (∃ t, Leads step s t ∧ Leads step t s' ∧ snap.done = (run t).done) ∧
      (∃ t, Leads step s t ∧ Leads step t s' ∧ snap.failed = (run t).failed) ∧
      (∃ t, Leads step s t ∧ Leads step t s' ∧ snap.rejected = (run t).rejected) ∧
      ∃ t, Leads step s t ∧ Leads step t s' ∧ snap.skipped = (run t).skipped := by
  obtain ⟨t₁, t₂, t₃, t₄, t₅, h₁, h₂, h₃, h₄, h₅, h₆, rfl⟩ := h
  have g₂ := h₁.trans h₂
  have g₃ := g₂.trans h₃
  have g₄ := g₃.trans h₄
  have k₄ := h₅.trans h₆
  have k₃ := h₄.trans k₄
  have k₂ := h₃.trans k₃
  exact ⟨⟨t₁, h₁, h₂.trans k₂, rfl⟩, ⟨t₂, g₂, k₂, rfl⟩, ⟨t₃, g₃, k₃, rfl⟩, ⟨t₄, g₄, k₄, rfl⟩,
    t₅, g₄.trans h₅, h₆, rfl⟩

/-! ## Windows -/

/-- A counter `f` that is `g` or up to `slack` more, where no step lowers `g`. -/
structure Grows (step : σ → α → σ → Prop) (P : σ → Prop) (f g : σ → ℤ) (slack : ℤ) : Prop where
  mono : ∀ s a s', P s → step s a s' → g s ≤ g s'
  below : ∀ s, g s ≤ f s
  above : ∀ s, f s ≤ g s + slack

/-- **Two reads of a counter and the window between them.** -/
theorem Grows.counts {P : σ → Prop} (hP : ∀ s a s', P s → step s a s' → P s') {f g : σ → ℤ}
    {slack : ℤ} (h : Grows step P f g slack) {s₀ t s₁ s₂ u s₃ : σ} (hs : P s₀)
    (h₀ : Leads step s₀ t) (h₁ : Leads step t s₁) (h₂ : Leads step s₁ s₂) (h₃ : Leads step s₂ u)
    (h₄ : Leads step u s₃) : Counts g slack s₀ s₁ s₂ s₃ (f t) (f u) := by
  obtain ⟨pt, l₀⟩ := h₀.le hP h.mono hs
  obtain ⟨p₁, l₁⟩ := h₁.le hP h.mono pt
  obtain ⟨p₂, l₂⟩ := h₂.le hP h.mono p₁
  obtain ⟨pu, l₃⟩ := h₃.le hP h.mono p₂
  obtain ⟨-, l₄⟩ := h₄.le hP h.mono pu
  have bt := h.below t
  have at' := h.above t
  have bu := h.below u
  have au := h.above u
  exact ⟨by omega, by omega, by omega⟩

/-- What the difference of the window's snapshots says, counter by counter: `sent` up to
`slack`, as the count `taken`, and the others exactly. -/
structure CountsWindow (run : σ → Run) (taken : σ → ℤ) (slack : ℤ) (measure finish : Snapshot)
    (s₀ s₁ s₂ s₃ : σ) : Prop where
  sent : Counts taken slack s₀ s₁ s₂ s₃ measure.sent finish.sent
  done : Counts (fun s => (run s).done) 0 s₀ s₁ s₂ s₃ measure.done finish.done
  failed : Counts (fun s => (run s).failed) 0 s₀ s₁ s₂ s₃ measure.failed finish.failed
  rejected : Counts (fun s => (run s).rejected) 0 s₀ s₁ s₂ s₃ measure.rejected finish.rejected
  skipped : Counts (fun s => (run s).skipped) 0 s₀ s₁ s₂ s₃ measure.skipped finish.skipped

/-- No counter but `sent` went down. -/
structure Grown (run run' : Run) : Prop where
  done : run.done ≤ run'.done
  failed : run.failed ≤ run'.failed
  rejected : run.rejected ≤ run'.rejected
  skipped : run.skipped ≤ run'.skipped

/-- No step lowers a counter, but for what `taken` leaves out of `sent`. -/
structure Counting (step : σ → α → σ → Prop) (run : σ → Run) (P : σ → Prop) (taken : σ → ℤ)
    (slack : ℤ) : Prop where
  keeps : ∀ s a s', P s → step s a s' → P s'
  sent : Grows step P (fun s => (run s).sent) taken slack
  grown : ∀ s a s', P s → step s a s' → Grown (run s) (run s')

/-- **Torn snapshots bracket what happens between them.** -/
theorem Counting.window {P : σ → Prop} {taken : σ → ℤ} {slack : ℤ}
    (h : Counting step run P taken slack) {start : σ} (hstart : P start)
    {measure finish : Snapshot} {s₀ s₁ s₂ s₃ : σ}
    (hw : TakesWindow step run start measure finish s₀ s₁ s₂ s₃) :
    CountsWindow run taken slack measure finish s₀ s₁ s₂ s₃ := by
  have hs : P s₀ := by
    have hreach := hw.reached
    exact hreach.holds ⟨fun hx => by rw [hx]; exact hstart, fun hx hstep => h.keeps _ _ _ hx hstep⟩
  obtain ⟨⟨t₁, a₁, b₁, e₁⟩, ⟨t₂, a₂, b₂, e₂⟩, ⟨t₃, a₃, b₃, e₃⟩, ⟨t₄, a₄, b₄, e₄⟩, t₅, a₅, b₅, e₅⟩ :=
    hw.measure.reads
  obtain ⟨⟨u₁, c₁, d₁, f₁⟩, ⟨u₂, c₂, d₂, f₂⟩, ⟨u₃, c₃, d₃, f₃⟩, ⟨u₄, c₄, d₄, f₄⟩, u₅, c₅, d₅, f₅⟩ :=
    hw.finish.reads
  have hexact : ∀ f : σ → ℤ, (∀ s a s', P s → step s a s' → f s ≤ f s') →
      Grows step P f f 0 := fun f hf => ⟨hf, fun _ => le_rfl, fun _ => (add_zero _).ge⟩
  refine ⟨?_, ?_, ?_, ?_, ?_⟩
  · rw [e₁, f₁]
    exact h.sent.counts h.keeps hs a₁ b₁ hw.between c₁ d₁
  · rw [e₂, f₂]
    have hdone := hexact _ fun _ _ _ hx hstep => (h.grown _ _ _ hx hstep).done
    exact hdone.counts h.keeps hs a₂ b₂ hw.between c₂ d₂
  · rw [e₃, f₃]
    have hfailed := hexact _ fun _ _ _ hx hstep => (h.grown _ _ _ hx hstep).failed
    exact hfailed.counts h.keeps hs a₃ b₃ hw.between c₃ d₃
  · rw [e₄, f₄]
    have hrejected := hexact _ fun _ _ _ hx hstep => (h.grown _ _ _ hx hstep).rejected
    exact hrejected.counts h.keeps hs a₄ b₄ hw.between c₄ d₄
  · rw [e₅, f₅]
    have hskipped := hexact _ fun _ _ _ hx hstep => (h.grown _ _ _ hx hstep).skipped
    exact hskipped.counts h.keeps hs a₅ b₅ hw.between c₅ d₅

/-! ## The loops -/

theorem Grown.rfl {run : Run} : Grown run run := ⟨le_rfl, le_rfl, le_rfl, le_rfl⟩

/-- `on_publish` counts a completion as done or as failed. -/
theorem grown_completionCallback (run : Run) (reasonCode : ℕ) :
    Grown run (completionCallback run reasonCode) := by
  rw [completionCallback]
  split
  · exact ⟨le_rfl, by simp, le_rfl, le_rfl⟩
  · exact ⟨by simp, le_rfl, le_rfl, le_rfl⟩

/-- A loop that counts a publish when it is accepted. -/
theorem Counting.of_sent {P : σ → Prop} (keeps : ∀ s a s', P s → step s a s' → P s')
    (h : ∀ s a s', P s → step s a s' → (run s).sent ≤ (run s').sent ∧ Grown (run s) (run s')) :
    Counting step run P (fun s => (run s).sent) 0 where
  keeps := keeps
  sent := ⟨fun s a s' hs hstep => (h s a s' hs hstep).1, fun _ => le_rfl,
    fun _ => (add_zero _).ge⟩
  grown s a s' hs hstep := (h s a s' hs hstep).2

theorem counting_sync :
    Counting SyncStep CapacitySync.run (fun _ => True) (fun s => s.run.sent) 0 := by
  refine .of_sent (fun _ _ _ _ _ => trivial) fun s a s' _ hstep => ?_
  cases hstep with
  | fill | install | get | test | accept | refuse | notify | setStop | readWake | callWake =>
    exact ⟨le_rfl, .rfl⟩
  | sent => exact ⟨by simp, ⟨le_rfl, le_rfl, le_rfl, le_rfl⟩⟩
  | rejected => exact ⟨le_rfl, ⟨le_rfl, le_rfl, by simp, le_rfl⟩⟩
  | complete =>
    exact ⟨(completionCallback_sum _ _).2.ge, grown_completionCallback _ _⟩

theorem counting_awaited :
    Counting AwaitStep (CapacityAwaited.run (n := n)) (fun _ => True) (fun s => s.run.sent) 0 := by
  refine .of_sent (fun _ _ _ _ _ => trivial) fun s a s' _ hstep => ?_
  cases hstep with
  | start | test | setStop | readWake | cancel | abandon | drop => exact ⟨le_rfl, .rfl⟩
  | publish => exact ⟨by simp, ⟨le_rfl, le_rfl, le_rfl, le_rfl⟩⟩
  | @complete w ok =>
    obtain ⟨hsent, -, hdone, hfailed, hrejected, hskipped⟩ := completed_counts s.run ok
    exact ⟨hsent.ge, ⟨hdone, hfailed, hrejected.ge, hskipped.ge⟩⟩

/-- What `pub_capacity_nowait` has counted and the library has not refused. -/
def CapacityNowait.taken (s : CapacityNowait) : ℤ := s.run.sent - s.loop.undecided

theorem counting_nowait (window : ℕ) :
    Counting (NowaitStep window) CapacityNowait.run (fun _ => True) CapacityNowait.taken 1 where
  keeps _ _ _ _ _ := trivial
  sent := by
    have hundecided : ∀ loop : Refill, loop.undecided ≤ 1 := by
      intro loop
      cases loop <;> simp [Refill.undecided]
    refine ⟨fun s a s' _ hstep => ?_, fun s => ?_, fun s => ?_⟩
    · unfold CapacityNowait.taken
      cases hstep with
      | install hl | full hl | accept hl | refuse hl => simp [hl, Refill.undecided]
      | call hl => simp [hl, Refill.undecided]
      | rejected hl => simp [hl, Refill.undecided]
      | resume hl =>
        have hzero : s.loop.undecided = 0 := by
          rcases hl with hl | hl | ⟨hl, -⟩ <;> rw [hl] <;> rfl
        rw [hzero]
        exact le_rfl
      | test hl | taken hl =>
        rw [hl]
        split <;> exact le_rfl
      | decide hl =>
        rw [hl]
        split <;> exact le_rfl
      | @complete call reasonCode =>
        have hsent := (completionCallback_sum s.run reasonCode).2
        rcases s.completed_cases window call reasonCode with ⟨heq, -⟩ | heq <;> rw [heq] <;>
          exact (congrArg (· - (s.loop.undecided : ℤ)) hsent).ge
      | release | setStop | readWake | callWake => exact le_rfl
    · have := hundecided s.loop
      unfold CapacityNowait.taken
      omega
    · have := hundecided s.loop
      unfold CapacityNowait.taken
      omega
  grown s a s' _ hstep := by
    cases hstep with
    | install | resume | test | full | accept | taken | refuse | release | setStop | readWake
      | callWake => exact .rfl
    | call => exact ⟨le_rfl, le_rfl, le_rfl, le_rfl⟩
    | rejected => exact ⟨le_rfl, le_rfl, by simp, le_rfl⟩
    | decide =>
      split
      · exact .rfl
      · exact .rfl
    | @complete call reasonCode =>
      have hgrown := grown_completionCallback s.run reasonCode
      rcases s.completed_cases window call reasonCode with ⟨heq, -⟩ | heq <;> rw [heq] <;>
        exact hgrown

/-- The credits in the deque are ranges, so what is swept is no less than nothing. -/
theorem swept_nonneg {credits : List (ℤ × ℤ)} (h : ∀ c ∈ credits, c.1 < c.2) :
    0 ≤ (credits.map fun c => c.2 - c.1).sum := by
  refine List.sum_nonneg fun x hx => ?_
  obtain ⟨c, hc, rfl⟩ := List.mem_map.1 hx
  have := h c hc
  omega

theorem counting_fixedAwaited (o : Offer) :
    Counting (AwaitedStep o) (Awaited.run (n := n)) (fun s => AwaitedInv (s.total o) s)
      (fun s => s.run.sent) 0 := by
  refine .of_sent (fun s a s' hs hstep => (awaitedInv o).step hs hstep) fun s a s' hs hstep => ?_
  cases hstep with
  | @tick now =>
    obtain ⟨clipped, due, hclip, -, hclipped, -⟩ :=
      clip_cases o (o.total now - s.issued - s.run.skipped)
    rw [Awaited.tick, ← Offer.total, hclip]
    simp only
    split
    · exact ⟨le_rfl, ⟨le_rfl, le_rfl, le_rfl, by simpa using hclipped⟩⟩
    · exact ⟨le_rfl, ⟨le_rfl, le_rfl, le_rfl, by simpa using hclipped⟩⟩
  | finish =>
    have hswept := swept_nonneg hs.ordered.nonempty
    exact ⟨le_rfl, ⟨le_rfl, le_rfl, le_rfl, by simpa [Awaited.finish] using hswept⟩⟩
  | @head w clock =>
    rw [Awaited.head]
    split
    · split
      · exact ⟨le_rfl, .rfl⟩
      · exact ⟨le_rfl, .rfl⟩
    · exact ⟨by simp, ⟨le_rfl, le_rfl, le_rfl, le_rfl⟩⟩
  | @complete w ok =>
    cases ok
    · exact ⟨le_rfl, ⟨le_rfl, by simp [Awaited.complete], le_rfl, le_rfl⟩⟩
    · exact ⟨le_rfl, ⟨by simp [Awaited.complete], le_rfl, le_rfl, le_rfl⟩⟩

/-- A snapshot that takes no time. -/
theorem TakesSnapshot.still (s : σ) : TakesSnapshot step run s
    ⟨(run s).sent, (run s).done, (run s).failed, (run s).rejected, (run s).skipped⟩ s :=
  ⟨s, s, s, s, s, .refl s, .refl s, .refl s, .refl s, .refl s, .refl s, rfl⟩

/-- The first publish is counted when the window begins, and refused before it ends. -/
theorem lowered_window {window : ℕ} (hpos : 0 < window) :
    ∃ measure finish s₀ s₁ s₂ s₃, TakesWindow (NowaitStep window) CapacityNowait.run
        CapacityNowait.init measure finish s₀ s₁ s₂ s₃ ∧
      finish.sent = measure.sent - 1 := by
  -- the state in which the library decides on the first publish
  let s : CapacityNowait := { CapacityNowait.init with
    run := { Run.init with sent := Run.init.sent + 1 }
    loop := .calling 0
    wake := true
    calls := 1 }
  have h0 : Leads (NowaitStep window) CapacityNowait.init CapacityNowait.init := .refl _
  have h1 := h0.next (a := .install) (.install rfl)
  have h2 := h1.next (a := .resume) (.resume (.inl rfl))
  have h3 := h2.next (a := .test) (.test rfl)
  have hroom : Run.init.inFlight < window := by
    rw [show Run.init.inFlight = 0 from rfl]
    omega
  have h4 : Leads (NowaitStep window) CapacityNowait.init s :=
    h3.next (a := .call) (.call rfl hroom)
  have h5 : Leads (NowaitStep window) s s := .refl s
  have h6 := h5.next (a := .refuse) (.refuse rfl)
  have h7 := h6.next (a := .rejected) (.rejected rfl)
  exact ⟨_, _, _, _, _, _, ⟨h4, .still s, h7, .still _⟩, rfl⟩

/-- **The difference of the window's snapshots counts what happened in the window**, however
the threads interleave and although no snapshot is taken at one moment.  Only
`pub_capacity_nowait` counts a publish before the library has taken it: there `sent` may be
one off, and a window may even end with less sent than it began with. -/
theorem window_counts (window : ℕ) (o : Offer) :
    (∀ measure finish s₀ s₁ s₂ s₃, TakesWindow SyncStep CapacitySync.run (CapacitySync.init window)
        measure finish s₀ s₁ s₂ s₃ →
      CountsWindow CapacitySync.run (fun s => s.run.sent) 0 measure finish s₀ s₁ s₂ s₃) ∧
      (∀ measure finish s₀ s₁ s₂ s₃, TakesWindow AwaitStep CapacityAwaited.run
          (CapacityAwaited.init window) measure finish s₀ s₁ s₂ s₃ →
        CountsWindow CapacityAwaited.run (fun s => s.run.sent) 0 measure finish s₀ s₁ s₂ s₃) ∧
      (∀ measure finish s₀ s₁ s₂ s₃, TakesWindow (AwaitedStep o) Awaited.run
          (Awaited.init window o) measure finish s₀ s₁ s₂ s₃ →
        CountsWindow Awaited.run (fun s => s.run.sent) 0 measure finish s₀ s₁ s₂ s₃) ∧
      (∀ measure finish s₀ s₁ s₂ s₃, TakesWindow (NowaitStep window) CapacityNowait.run
          CapacityNowait.init measure finish s₀ s₁ s₂ s₃ →
        CountsWindow CapacityNowait.run CapacityNowait.taken 1 measure finish s₀ s₁ s₂ s₃) ∧
      (0 < window → ∃ measure finish s₀ s₁ s₂ s₃, TakesWindow (NowaitStep window)
          CapacityNowait.run CapacityNowait.init measure finish s₀ s₁ s₂ s₃ ∧
        finish.sent = measure.sent - 1) := by
  refine ⟨fun _ _ _ _ _ _ hw => counting_sync.window trivial hw,
    fun _ _ _ _ _ _ hw => counting_awaited.window trivial hw,
    fun _ _ _ _ _ _ hw => (counting_fixedAwaited o).window ((awaitedInv o).init rfl) hw,
    fun _ _ _ _ _ _ hw => (counting_nowait window).window trivial hw, lowered_window⟩

/-- With a window of one, a window that ends with less sent is one off. -/
theorem window_counts_lowered : ∃ measure finish s₀ s₁ s₂ s₃,
    finish.sent = measure.sent - 1 ∧
      CountsWindow CapacityNowait.run CapacityNowait.taken 1 measure finish s₀ s₁ s₂ s₃ := by
  obtain ⟨-, -, -, hcounts, hlowered⟩ := window_counts 1 offer3000
  obtain ⟨measure, finish, s₀, s₁, s₂, s₃, hw, hsent⟩ := hlowered Nat.one_pos
  exact ⟨_, _, _, _, _, _, hsent, hcounts _ _ _ _ _ _ hw⟩

end Drive
