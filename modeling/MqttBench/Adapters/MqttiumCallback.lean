import MqttBench.Adapters.GmqttAsync
import MqttBench.Lib.KeyedFifo
import MqttBench.Lib.Traces

/-!
# Completions of the MQTTium adapter by packet id

`publish_nowait`, `_arm_completions` and `_publish_qos_via_callback` of
`adapters/mqttium_async.py`, for the builds whose client has one `on_publish`.  The library reuses
packet ids, so the adapter keeps a queue of the publishes that wait under each of them.  The
library is outside: what it does in a call is the `Admitting`.  `on_publish` of the adapter is
set, as the drive loops set it before the first call.

* `publishNowait`, `onPublish` — the program.
* `CallbackInv` — under each packet id, completions come in the order of admission.
* `completions_in_order` — **no accepted publish is completed twice or under a wrong mid, and
  each is completed or waits.**
-/

namespace Adapters

open KeyedFifo Traces

/-! ## The program -/

/-- A publish that waits for its completion: the mid that was returned, and, for the
statements, its number. -/
structure Waiting where
  publish : ℕ
  mid : ℕ
  deriving DecidableEq

/-- What the library's `publish_nowait` ends with. -/
inductive Returned
  | flowControl
  | raises (message : String)
  /-- A receipt with its packet id. -/
  | receipt (real : Option ℕ)
  deriving DecidableEq

/-- A call of the library's `on_publish`: the packet id, and whether there is a reason. -/
structure OnPublish where
  real : Option ℕ
  failed : Bool
  deriving DecidableEq

/-- What the library does in a call: the callbacks that it makes before it returns. -/
structure Admitting where
  inside : List OnPublish
  returned : Returned

/-- What became of a call of `publish_nowait`, for the statements. -/
inductive Fate
  | refused
  /-- Completed before it returned `mid`. -/
  | atOnce (mid : ℕ)
  /-- It returned `mid`, and waits under a packet id. -/
  | under (real mid : ℕ)
  deriving DecidableEq

/-- A call of the adapter's `on_publish`.  `publish` is the number of the publish that it is
for, and `real` the packet id under which it waited. -/
structure Completion where
  publish : ℕ
  fired : Fired
  real : Option ℕ
  deriving DecidableEq

/-- `_next_mid`, whether the client's `on_publish` is set, and `_real_to_synth`.  `fates`,
`calls` and `heard` are records: of the calls of `publish_nowait`, of the calls of the
adapter's `on_publish`, and of the reasons that came for each packet id. -/
structure MqttiumCallback where
  nextMid : ℕ
  armed : Bool
  realToSynth : Queues ℕ Waiting
  fates : List Fate
  calls : List Completion
  heard : List (ℕ × ℕ)

namespace MqttiumCallback

/-- `MqttiumAsyncAdapter()`. -/
def init : MqttiumCallback := ⟨0, false, fun _ => none, [], [], []⟩

/-- `_fire_bench_publish(mid, reason_code)`. -/
def fireBenchPublish (s : MqttiumCallback) (publish mid reason : ℕ) (real : Option ℕ) :
    MqttiumCallback :=
  { s with calls := s.calls ++ [⟨publish, ⟨mid, reason⟩, real⟩] }

/-- The `_on_publish` that `_arm_completions` installs. -/
def onPublish (s : MqttiumCallback) (c : OnPublish) : MqttiumCallback :=
  match c.real with
  | none => s
  | some real =>
    let reason := if c.failed then 128 else 0
    let s := { s with heard := s.heard ++ [(real, reason)] }
    match take s.realToSynth real with
    | (_, none) => s
    | (queues, some e) =>
      { s with realToSynth := queues }.fireBenchPublish e.publish e.mid reason (some real)

/-- The library calls the client's `on_publish`, if it is set. -/
def callback (s : MqttiumCallback) (c : OnPublish) : MqttiumCallback :=
  if s.armed then s.onPublish c else s

/-- `publish_nowait(topic, payload, qos)`: the adapter, and what is returned or raised. -/
def publishNowait (s : MqttiumCallback) (qos : ℕ) (a : Admitting) :
    MqttiumCallback × Except String (Option ℕ) :=
  let i := s.fates.length
  -- `_arm_completions`
  let s := if qos = 0 then s else { s with armed := true }
  let s := a.inside.foldl callback s
  match a.returned with
  | .flowControl => ({ s with fates := s.fates ++ [.refused] }, .ok none)
  | .raises message => ({ s with fates := s.fates ++ [.refused] }, .error message)
  | .receipt real =>
    let mid := allocMid s.nextMid
    let s := { s with nextMid := mid }
    match (if qos = 0 then none else real) with
    | none =>
      ({ s with fates := s.fates ++ [Fate.atOnce mid] }.fireBenchPublish i mid 0 none, .ok (some mid))
    | some real =>
      ({ s with
        fates := s.fates ++ [.under real mid]
        realToSynth := put s.realToSynth real ⟨i, mid⟩ }, .ok (some mid))

end MqttiumCallback

/-- An event: a publish, or a callback of the library between two of them. -/
inductive CallbackEvent
  | publish (qos : ℕ) (a : Admitting)
  | callback (c : OnPublish)

namespace MqttiumCallback

/-- One event. -/
def step (s : MqttiumCallback) : CallbackEvent → MqttiumCallback
  | .publish qos a => (s.publishNowait qos a).1
  | .callback c => s.callback c

/-- A run. -/
def run (events : List CallbackEvent) : MqttiumCallback := events.foldl step init

end MqttiumCallback

/-! ## What a run should come to -/

/-- The publishes completed under a packet id, in the order of their completions. -/
def completedUnder (real : ℕ) (calls : List Completion) : List Waiting :=
  (calls.filter (·.real = some real)).map fun c => ⟨c.publish, c.fired.mid⟩

/-- Their reasons. -/
def reasonsUnder (real : ℕ) (calls : List Completion) : List ℕ :=
  (calls.filter (·.real = some real)).map (·.fired.reasonCode)

/-- The reasons that came for a packet id. -/
def heardUnder (real : ℕ) (heard : List (ℕ × ℕ)) : List ℕ :=
  (heard.filter (·.1 = real)).map (·.2)

/-- What publish `n` adds to those that are admitted under a packet id. -/
def Fate.adds (real n : ℕ) : Fate → List Waiting
  | .under real' mid => if real = real' then [⟨n, mid⟩] else []
  | _ => []

/-- The publishes admitted under a packet id, in order. -/
def admittedUnder (real : ℕ) (fates : List Fate) : List Waiting :=
  fates.zipIdx.flatMap fun (f, n) => f.adds real n

/-- How often a publish is to be completed. -/
def Fate.owed : Fate → ℕ
  | .refused => 0
  | _ => 1

/-- What a publish returns. -/
def Fate.returned : Fate → Option ℕ
  | .refused => none
  | .atOnce mid => some mid
  | .under _ mid => some mid

/-- How often publish `i` waits. -/
def waitsFor (queues : Queues ℕ Waiting) (i : ℕ) : Fate → ℕ
  | .under real mid => (contents queues real).count ⟨i, mid⟩
  | _ => 0

/-- The fate that a completion belongs to. -/
def Completion.fate (c : Completion) : Fate :=
  match c.real with
  | none => .atOnce c.fired.mid
  | some real => .under real c.fired.mid

/-- What holds between any two events. -/
structure CallbackInv (s : MqttiumCallback) : Prop where
  tidy : Tidy s.realToSynth
  /-- Under each packet id, the completed publishes and those that wait are the admitted
  ones, in order. -/
  fifo : ∀ real, completedUnder real s.calls ++ contents s.realToSynth real =
    admittedUnder real s.fates
  reasons : ∀ real, (reasonsUnder real s.calls).Sublist (heardUnder real s.heard)
  /-- What waits under a packet id was admitted under it. -/
  waiting : ∀ real, ∀ e ∈ contents s.realToSynth real,
    s.fates[e.publish]? = some (.under real e.mid)
  /-- A completion carries the mid that its publish returned. -/
  carries : ∀ c ∈ s.calls, s.fates[c.publish]? = some c.fate ∧
    (c.real = none → c.fired.reasonCode = 0)
  /-- An accepted publish was completed once, or waits once. -/
  once : ∀ i f, s.fates[i]? = some f →
    s.calls.countP (·.publish = i) + waitsFor s.realToSynth i f = f.owed

/-! ## A callback -/

theorem completedUnder_append (real : ℕ) (calls : List Completion) (c : Completion) :
    completedUnder real (calls ++ [c]) = completedUnder real calls ++
      if c.real = some real then [⟨c.publish, c.fired.mid⟩] else [] := by
  unfold completedUnder
  split <;> rename_i h <;> simp [h]

theorem reasonsUnder_append (real : ℕ) (calls : List Completion) (c : Completion) :
    reasonsUnder real (calls ++ [c]) = reasonsUnder real calls ++
      if c.real = some real then [c.fired.reasonCode] else [] := by
  unfold reasonsUnder
  split <;> rename_i h <;> simp [h]

theorem heardUnder_append (real : ℕ) (heard : List (ℕ × ℕ)) (h : ℕ × ℕ) :
    heardUnder real (heard ++ [h]) = heardUnder real heard ++
      if h.1 = real then [h.2] else [] := by
  unfold heardUnder
  split <;> rename_i h' <;> simp [h']

namespace MqttiumCallback

/-- What a callback can do: nothing, or it finds no publish, or it completes the one that has
waited longest under its packet id. -/
theorem callback_cases (s : MqttiumCallback) (c : OnPublish) :
    s.callback c = s ∨
    (∃ real reason, s.callback c = { s with heard := s.heard ++ [(real, reason)] }) ∨
    ∃ real reason e rest, contents s.realToSynth real = e :: rest ∧
      s.callback c = { s with
        heard := s.heard ++ [(real, reason)]
        realToSynth := (take s.realToSynth real).1
        calls := s.calls ++ [⟨e.publish, ⟨e.mid, reason⟩, some real⟩] } ∧
      ∀ real', contents (take s.realToSynth real).1 real' =
        if real' = real then rest else contents s.realToSynth real' := by
  unfold callback onPublish
  split
  · obtain ⟨real | real, failed⟩ := c
    · exact .inl rfl
    · obtain ⟨_, htake⟩ | ⟨e, rest, hcontents, htake, hrest⟩ := take_cases s.realToSynth real
      · refine .inr (.inl ⟨real, if failed then 128 else 0, ?_⟩)
        simp only [htake]
      · refine .inr (.inr ⟨real, if failed then 128 else 0, e, rest, hcontents, ?_, hrest⟩)
        have hpair : take s.realToSynth real = ((take s.realToSynth real).1, some e) := by
          rw [← htake]
        simp only
        rw [hpair]
        rfl
  · exact .inl rfl

theorem callback_fates (s : MqttiumCallback) (c : OnPublish) : (s.callback c).fates = s.fates := by
  obtain h | ⟨real, reason, h⟩ | ⟨real, reason, e, rest, _, h, _⟩ := s.callback_cases c <;>
    rw [h]

end MqttiumCallback

/-- **A callback keeps the queues in step with the calls.** -/
theorem CallbackInv.callback {s : MqttiumCallback} (h : CallbackInv s) (c : OnPublish) :
    CallbackInv (s.callback c) := by
  obtain heq | ⟨real, reason, heq⟩ | ⟨real, reason, e, rest, hcontents, heq, hrest⟩ :=
    s.callback_cases c
  · rw [heq]
    exact h
  · rw [heq]
    refine { h with reasons := fun real' => ?_ }
    simp only [heardUnder_append]
    exact (h.reasons real').trans (List.sublist_append_left _ _)
  · have hfate : s.fates[e.publish]? = some (.under real e.mid) :=
      h.waiting real e (hcontents ▸ List.mem_cons_self)
    rw [heq]
    refine ⟨h.tidy.take real, fun real' => ?_, fun real' => ?_, fun real' e' he' => ?_,
      fun c' hc' => ?_, fun i f hf => ?_⟩
    · simp only [completedUnder_append, hrest]
      rw [← h.fifo real']
      by_cases hreal : real' = real
      · subst hreal
        simp [hcontents]
      · simp [hreal, Ne.symm hreal]
    · simp only [reasonsUnder_append, heardUnder_append, Option.some.injEq]
      exact (h.reasons real').append (List.Sublist.refl _)
    · simp only [hrest] at he'
      split at he'
      · rename_i hreal
        subst hreal
        exact h.waiting real' e' (hcontents ▸ List.mem_cons_of_mem e he')
      · exact h.waiting real' e' he'
    · obtain hc' | hc' := List.mem_append.1 hc'
      · exact h.carries c' hc'
      · obtain rfl := List.mem_singleton.1 hc'
        exact ⟨hfate, fun hnone => absurd hnone (Option.some_ne_none real)⟩
    · have honce := h.once i f hf
      simp only [List.countP_append, List.countP_singleton]
      by_cases hi : e.publish = i
      · -- the publish that is completed leaves the queue
        subst hi
        obtain rfl : f = .under real e.mid := Option.some.inj (hf.symm.trans hfate)
        simp only [waitsFor, hcontents, List.count_cons_self] at honce
        simp only [waitsFor, hrest, if_true, decide_true]
        omega
      · have hwaits : waitsFor (take s.realToSynth real).1 i f =
            waitsFor s.realToSynth i f := by
          cases f with
          | refused | atOnce => rfl
          | under real' mid =>
            simp only [waitsFor, hrest]
            by_cases hreal : real' = real
            · subst hreal
              have hne : e ≠ ⟨i, mid⟩ := fun he => hi (congrArg Waiting.publish he)
              rw [if_pos rfl, hcontents, List.count_cons_of_ne hne]
            · rw [if_neg hreal]
        rw [hwaits]
        simpa [hi] using honce

/-! ## A publish -/

theorem admittedUnder_append (real : ℕ) (fates : List Fate) (f : Fate) :
    admittedUnder real (fates ++ [f]) =
      admittedUnder real fates ++ f.adds real fates.length := by
  unfold admittedUnder
  rw [List.zipIdx_append]
  simp

/-- The adapter once the fate of a publish is known. -/
def MqttiumCallback.register (s : MqttiumCallback) (f : Fate) : MqttiumCallback :=
  { s with
    fates := s.fates ++ [f]
    calls := match f with
      | .atOnce mid => s.calls ++ [⟨s.fates.length, ⟨mid, 0⟩, none⟩]
      | _ => s.calls
    realToSynth := match f with
      | .under real mid => put s.realToSynth real ⟨s.fates.length, mid⟩
      | _ => s.realToSynth }

namespace CallbackInv

variable {s : MqttiumCallback}

/-- What waits came before the next publish. -/
theorem waiting_lt (h : CallbackInv s) {real : ℕ} {e : Waiting}
    (he : e ∈ contents s.realToSynth real) : e.publish < s.fates.length :=
  (List.getElem?_eq_some_iff.1 (h.waiting real e he)).1

theorem calls_lt (h : CallbackInv s) {c : Completion} (hc : c ∈ s.calls) :
    c.publish < s.fates.length :=
  (List.getElem?_eq_some_iff.1 (h.carries c hc).1).1

/-- Nothing is known of the next publish. -/
theorem fresh (h : CallbackInv s) (f : Fate) :
    s.calls.countP (·.publish = s.fates.length) + waitsFor s.realToSynth s.fates.length f = 0 := by
  have hcalls : s.calls.countP (·.publish = s.fates.length) = 0 := by
    rw [List.countP_eq_zero]
    intro c hc
    have hlt := h.calls_lt hc
    simp only [decide_eq_true_eq]
    omega
  have hwaits : waitsFor s.realToSynth s.fates.length f = 0 := by
    cases f with
    | refused | atOnce => rfl
    | under real mid =>
      refine List.count_eq_zero.2 fun he => ?_
      exact absurd (h.waiting_lt he) (lt_irrefl _)
  rw [hcalls, hwaits]

/-- The fate of the earlier publishes stays. -/
theorem fates_append {n : ℕ} {f g : Fate} (h : s.fates[n]? = some g) :
    (s.fates ++ [f])[n]? = some g := by
  rw [List.getElem?_append_left (List.getElem?_eq_some_iff.1 h).1, h]

/-- **A publish keeps the queues in step with the calls, whatever its fate.** -/
theorem register (h : CallbackInv s) (f : Fate) : CallbackInv (s.register f) := by
  have hcontents : ∀ real, contents (s.register f).realToSynth real =
      contents s.realToSynth real ++ f.adds real s.fates.length := by
    intro real
    cases f with
    | refused | atOnce => exact (List.append_nil _).symm
    | under => exact contents_put ..
  refine ⟨?_, fun real => ?_, fun real => ?_, fun real e he => ?_, fun c hc => ?_,
    fun i g hg => ?_⟩
  · cases f with
    | refused | atOnce => exact h.tidy
    | under => exact h.tidy.put _ _
  · rw [hcontents, ← List.append_assoc]
    have hcalls : completedUnder real (s.register f).calls = completedUnder real s.calls := by
      cases f with
      | refused | under => rfl
      | atOnce => simp [MqttiumCallback.register, completedUnder_append]
    rw [hcalls, h.fifo real]
    exact (admittedUnder_append real s.fates f).symm
  · cases f with
    | refused | under => exact h.reasons real
    | atOnce => simpa [MqttiumCallback.register, reasonsUnder_append] using h.reasons real
  · rw [hcontents] at he
    obtain he | he := List.mem_append.1 he
    · exact fates_append (h.waiting real e he)
    · cases f with
      | refused | atOnce => cases he
      | under real' mid =>
        by_cases hreal : real = real'
        · subst hreal
          rw [Fate.adds, if_pos rfl] at he
          obtain rfl := List.mem_singleton.1 he
          exact List.getElem?_concat_length
        · rw [Fate.adds, if_neg hreal] at he
          cases he
  · have hold : ∀ c ∈ s.calls, (s.register f).fates[c.publish]? = some c.fate ∧
        (c.real = none → c.fired.reasonCode = 0) :=
      fun c hc => ⟨fates_append (h.carries c hc).1, (h.carries c hc).2⟩
    cases f with
    | refused | under => exact hold c hc
    | atOnce mid =>
      obtain hc | hc := List.mem_append.1 hc
      · exact hold c hc
      · obtain rfl := List.mem_singleton.1 hc
        exact ⟨List.getElem?_concat_length, fun _ => rfl⟩
  · have hg : (s.fates ++ [f])[i]? = some g := hg
    by_cases hi : i < s.fates.length
    · -- an earlier publish
      rw [List.getElem?_append_left hi] at hg
      have honce := h.once i g hg
      have hne : s.fates.length ≠ i := by omega
      cases f with
      | refused => exact honce
      | atOnce mid =>
        simpa [MqttiumCallback.register, List.countP_append, List.countP_singleton, hne] using honce
      | under real mid =>
        cases g with
        | refused | atOnce => exact honce
        | under real' mid' =>
          simp only [waitsFor, hcontents, Fate.adds] at honce ⊢
          split <;> simpa [MqttiumCallback.register, List.count_append, hne] using honce
    · -- the publish itself
      have hlt : i < (s.fates ++ [f]).length := (List.getElem?_eq_some_iff.1 hg).1
      rw [List.length_append, List.length_singleton] at hlt
      obtain rfl : i = s.fates.length := by omega
      rw [List.getElem?_concat_length] at hg
      obtain rfl := Option.some.inj hg
      have hfresh := h.fresh f
      cases f with
      | refused => exact hfresh
      | atOnce mid =>
        have hcalls : s.calls.countP (·.publish = s.fates.length) = 0 := by omega
        simp [MqttiumCallback.register, List.countP_append, hcalls, waitsFor, Fate.owed]
      | under real mid =>
        have hwaits : waitsFor (s.register (.under real mid)).realToSynth s.fates.length
            (.under real mid) =
              waitsFor s.realToSynth s.fates.length (.under real mid) + 1 := by
          simp [waitsFor, hcontents, Fate.adds]
        rw [hwaits, ← Nat.add_assoc]
        exact congrArg (· + 1) hfresh

end CallbackInv

namespace MqttiumCallback

/-- Callbacks of the library keep the fates. -/
theorem foldl_callback_fates (cs : List OnPublish) (s : MqttiumCallback) :
    (cs.foldl callback s).fates = s.fates := by
  induction cs generalizing s with
  | nil => rfl
  | cons c cs ih => rw [List.foldl_cons, ih, callback_fates]

/-- **What a publish comes to**: the callbacks that the library makes, and then its fate. -/
theorem publishNowait_cases (s : MqttiumCallback) (qos : ℕ) (a : Admitting) :
    ∃ s₁ f, s₁.fates = s.fates ∧ (CallbackInv s → CallbackInv s₁) ∧
      (s.publishNowait qos a).1 = s₁.register f ∧
      (s.publishNowait qos a).2.toOption.join = f.returned := by
  let s₀ := if qos = 0 then s else { s with armed := true }
  let s₁ := a.inside.foldl callback s₀
  have hfates : s₁.fates = s.fates := by
    simp only [s₁, foldl_callback_fates, s₀]
    split <;> rfl
  have hinv : CallbackInv s → CallbackInv s₁ := by
    intro h
    have h₀ : CallbackInv s₀ := by
      simp only [s₀]
      split
      · exact h
      · exact { h with }
    exact Traces.foldl_holds (fun _ c h => h.callback c) h₀ a.inside
  let s₂ := { s₁ with nextMid := allocMid s₁.nextMid }
  have hinv₂ : CallbackInv s → CallbackInv s₂ := fun h => { hinv h with }
  obtain ⟨inside, returned⟩ := a
  cases returned with
  | flowControl => exact ⟨s₁, .refused, hfates, hinv, rfl, rfl⟩
  | raises message => exact ⟨s₁, .refused, hfates, hinv, rfl, rfl⟩
  | receipt real =>
    by_cases hq : qos = 0
    · refine ⟨s₂, .atOnce (allocMid s₁.nextMid), hfates, hinv₂, ?_, ?_⟩
      · simp [publishNowait, hq, s₂, s₁, s₀, register, fireBenchPublish, foldl_callback_fates]
      · simp [publishNowait, hq, s₁, s₀, Fate.returned, Except.toOption]
    · cases real with
      | none =>
        refine ⟨s₂, .atOnce (allocMid s₁.nextMid), hfates, hinv₂, ?_, ?_⟩
        · simp [publishNowait, hq, s₂, s₁, s₀, register, fireBenchPublish, foldl_callback_fates]
        · simp [publishNowait, hq, s₁, s₀, Fate.returned, Except.toOption]
      | some real =>
        refine ⟨s₂, .under real (allocMid s₁.nextMid), hfates, hinv₂, ?_, ?_⟩
        · simp [publishNowait, hq, s₂, s₁, s₀, register, foldl_callback_fates]
        · simp [publishNowait, hq, s₁, s₀, Fate.returned, Except.toOption]

end MqttiumCallback

/-! ## Runs -/

/-- Before the first event nothing waits. -/
theorem CallbackInv.init : CallbackInv .init where
  tidy := fun _ => Option.some_ne_none _ |>.symm
  fifo := fun _ => rfl
  reasons := fun _ => List.Sublist.refl _
  waiting := fun _ _ he => absurd he List.not_mem_nil
  carries := fun _ hc => absurd hc List.not_mem_nil
  once := fun _ _ hf => by cases hf

/-- An event keeps the queues in step with the calls. -/
theorem CallbackInv.step {s : MqttiumCallback} (h : CallbackInv s) (event : CallbackEvent) :
    CallbackInv (s.step event) := by
  cases event with
  | publish qos a =>
    obtain ⟨s₁, f, _, hinv, heq, _⟩ := s.publishNowait_cases qos a
    show CallbackInv (s.publishNowait qos a).1
    rw [heq]
    exact (hinv h).register f
  | callback c => exact h.callback c

/-- **Completions by packet id are in the order of admission.**  Whatever the library does, in
its calls and between them, the publishes completed under a packet id and then those that wait
there are the publishes admitted under it, in order, and no empty queue is kept; the reasons of
the completions are reasons that came for that packet id, in order; each accepted publish was
completed once or waits once, a refused one neither; and a completion carries the mid that its
publish returned. -/
theorem completions_in_order (events : List CallbackEvent) :
    let s := MqttiumCallback.run events
    (∀ real, completedUnder real s.calls ++ contents s.realToSynth real =
        admittedUnder real s.fates ∧ s.realToSynth real ≠ some [] ∧
        (reasonsUnder real s.calls).Sublist (heardUnder real s.heard)) ∧
      (∀ i f, s.fates[i]? = some f →
        s.calls.countP (·.publish = i) + waitsFor s.realToSynth i f = f.owed) ∧
      (∀ c ∈ s.calls, ∃ f, s.fates[c.publish]? = some f ∧ f.returned = some c.fired.mid ∧
        (c.real = none → c.fired.reasonCode = 0)) ∧
      ∀ qos a, ∃ f, (s.publishNowait qos a).1.fates = s.fates ++ [f] ∧
        (s.publishNowait qos a).2.toOption.join = f.returned := by
  intro s
  have h : CallbackInv s := Traces.foldl_holds (fun _ event h => h.step event) .init events
  refine ⟨fun real => ⟨h.fifo real, h.tidy real, h.reasons real⟩, h.once, fun c hc => ?_,
    fun qos a => ?_⟩
  · obtain ⟨hfate, hzero⟩ := h.carries c hc
    refine ⟨c.fate, hfate, ?_, hzero⟩
    unfold Completion.fate
    split <;> rfl
  · obtain ⟨s₁, f, hfates, _, heq, hreturned⟩ := s.publishNowait_cases qos a
    refine ⟨f, ?_, hreturned⟩
    rw [heq, ← hfates]
    rfl

end Adapters
