import MqttBench.Bench.Campaign

/-!
# What the sessions of a campaign can do

Every save of a call of `run_campaign` is one of five kinds, and a call may be killed
between any two operations of any save.

* `SaveStep` — the five kinds, with what is known when each is made.
* `runCampaign_along` — **every save of a call is one of these**, and a call that reaches
  its end leaves every key done.
* `sessions_keep` — **what every save keeps holds after any sessions, killed or not.**
-/

namespace Bench

open Traces AtomicSave

variable {V : Type} [DecidableEq V]

/-! ## One save -/

/-- The settings of a call that found out its frozen fields. -/
def Call.settings (c : Call V) (frozen : Frozen → V) : Settings V :=
  ⟨c.points, c.clients, c.profile, c.runsPerPoint, frozen⟩

/-- The keys of a call. -/
def Call.order (refusals : Refusals) (c : Call V) : List Key :=
  plan refusals c.points c.clients c.runsPerPoint

/-- The documents of a directory, in memory. -/
def Dir.store (dir : Dir V) : Store V := ⟨dir.docs⟩

/-- What one save of a call can do to the directory. -/
inductive SaveStep (refusals : Refusals) (c : Call V) (frozen : Frozen → V) :
    Dir V → Save V → Prop
  /-- A new manifest. -/
  | start {dir : Dir V} : dir.manifest = none → dir.docs.entries = [] →
      SaveStep refusals c frozen dir (.manifest (newManifest c frozen))
  /-- A pair that the client refuses. -/
  | refused {dir : Dir V} {m : Manifest V} (client point : String) (reasons : List String) :
      dir.manifest = some m → m.Matches (c.settings frozen) →
      (∀ u ∈ (dir.store.doc c.version client).unsupported, u.1 ≠ point) →
      SaveStep refusals c frozen dir
        (.doc client ((dir.store.doc c.version client).refuse point reasons))
  /-- A new session. -/
  | session {dir : Dir V} {m : Manifest V} :
      dir.manifest = some m → m.Matches (c.settings frozen) →
      SaveStep refusals c frozen dir (.manifest (m.addSession c.session))
  /-- The record of a run; with no key planned twice, of a key that is not done. -/
  | record {dir : Dir V} {m : Manifest V} (k : Key) (attempt : ℕ) :
      dir.manifest = some m → m.Matches (c.settings frozen) → m.sessions ≠ [] →
      k ∈ c.order refusals →
      ((c.order refusals).Nodup →
        dir.store.done k = false ∧ (dir.store.attempts k).length = attempt) →
      SaveStep refusals c frozen dir (dir.store.add c.version k.client
        (c.outcome k attempt).identity
        (c.record (c.settings frozen) (m.sessions.length - 1) attempt k)).2
  /-- The end. -/
  | finish {dir : Dir V} {m : Manifest V} :
      dir.manifest = some m → m.Matches (c.settings frozen) →
      (∀ k ∈ c.order refusals, dir.store.done k = true) →
      SaveStep refusals c frozen dir (.manifest (m.finish c.finishedAt))

/-! ## The saves of a call -/

variable (refusals : Refusals) (c : Call V) (frozen : Frozen → V)

omit [DecidableEq V] in
/-- The documents of the refused pairs are saved as they are kept in memory. -/
theorem along_addRefused (pairs : List (String × Point)) (dir : Dir V) {m : Manifest V}
    (hm : dir.manifest = some m) (hmatch : m.Matches (c.settings frozen)) :
    Along Dir.commit (SaveStep refusals c frozen) dir
        (addRefused refusals c.version pairs dir.store).2 ∧
      (addRefused refusals c.version pairs dir.store).2.foldl Dir.commit dir =
        { dir with docs := (addRefused refusals c.version pairs dir.store).1.docs } := by
  induction pairs generalizing dir with
  | nil => exact ⟨trivial, rfl⟩
  | cons pair pairs ih =>
    obtain ⟨client, point⟩ := pair
    rw [addRefused]
    simp only
    by_cases hr : (refusals client point).isEmpty = true
    · rw [if_pos hr]
      exact ih dir hm
    · rw [if_neg hr]
      by_cases hall : ((dir.store.doc c.version client).unsupported.all
          fun u => u.1 ≠ point.name) = true
      · have hadd : dir.store.addUnsupported c.version client point.name (refusals client point) =
            (⟨dir.docs.insert client ((dir.store.doc c.version client).refuse point.name
                (refusals client point))⟩,
              [.doc client ((dir.store.doc c.version client).refuse point.name
                (refusals client point))]) := by
          rw [Store.addUnsupported, if_pos hall]
          rfl
        have hnew : ∀ u ∈ (dir.store.doc c.version client).unsupported, u.1 ≠ point.name := by
          simpa using hall
        rw [hadd]
        obtain ⟨halong, hfold⟩ := ih (dir.commit (.doc client
          ((dir.store.doc c.version client).refuse point.name (refusals client point)))) hm
        exact ⟨⟨.refused client point.name _ hm hmatch hnew, halong⟩, hfold⟩
      · have hadd : dir.store.addUnsupported c.version client point.name (refusals client point) =
            (dir.store, []) := by
          rw [Store.addUnsupported, if_neg hall]
        rw [hadd]
        exact ih dir hm

omit [DecidableEq V] in
/-- The keys of a pass that are still ahead are not done, and have been attempted as often
as before it. -/
theorem along_runTodo {m : Manifest V} (hmatch : m.Matches (c.settings frozen))
    (hsessions : m.sessions ≠ []) (attempt : ℕ)
    (keys : List Key) (hkeys : ∀ k ∈ keys, k ∈ c.order refusals) (dir : Dir V)
    (hm : dir.manifest = some m)
    (hfresh : (c.order refusals).Nodup → keys.Nodup ∧
      ∀ k ∈ keys, dir.store.done k = false ∧ (dir.store.attempts k).length = attempt) :
    let run := runTodo c (c.settings frozen) (m.sessions.length - 1) attempt keys dir.store
    Along Dir.commit (SaveStep refusals c frozen) dir run.2 ∧
      run.2.foldl Dir.commit dir = { dir with docs := run.1.docs } := by
  induction keys generalizing dir with
  | nil => exact ⟨trivial, rfl⟩
  | cons k keys ih =>
    have hstep : SaveStep refusals c frozen dir (dir.store.add c.version k.client
        (c.outcome k attempt).identity
        (c.record (c.settings frozen) (m.sessions.length - 1) attempt k)).2 :=
      .record k attempt hm hmatch hsessions (hkeys k (by simp)) fun hnodup => (hfresh hnodup).2 k (by simp)
    obtain ⟨halong, hfold⟩ := ih (fun k' hk' => hkeys k' (by simp [hk']))
      (dir.commit (dir.store.add c.version k.client (c.outcome k attempt).identity
        (c.record (c.settings frozen) (m.sessions.length - 1) attempt k)).2) hm fun hnodup => by
          obtain ⟨hk, hrest⟩ := hfresh hnodup
          obtain ⟨hnot, hkeys'⟩ := List.nodup_cons.1 hk
          refine ⟨hkeys', fun k' hk' => ?_⟩
          have hne : k' ≠ k := fun h => hnot (h ▸ hk')
          have hsame := attempts_add dir.store c.version k.client (c.outcome k attempt).identity
            (c.record (c.settings frozen) (m.sessions.length - 1) attempt k) k'
          rw [record_key, if_neg hne, List.append_nil] at hsame
          obtain ⟨hdone, hlen⟩ := hrest k' (by simp [hk'])
          exact ⟨(done_congr hsame).trans hdone, (congrArg _ hsame).trans hlen⟩
    exact ⟨⟨hstep, halong⟩, hfold⟩

omit [DecidableEq V] in
theorem along_runPasses {m : Manifest V} (hmatch : m.Matches (c.settings frozen))
    (hsessions : m.sessions ≠ []) (attempts : List ℕ)
    (dir : Dir V) (hm : dir.manifest = some m) :
    let run := runPasses c (c.settings frozen) (m.sessions.length - 1) (c.order refusals) attempts
      dir.store
    Along Dir.commit (SaveStep refusals c frozen) dir run.2 ∧
      run.2.foldl Dir.commit dir = { dir with docs := run.1.docs } := by
  induction attempts generalizing dir with
  | nil => exact ⟨trivial, rfl⟩
  | cons attempt attempts ih =>
    have hmem : ∀ k ∈ todo (c.order refusals) attempt dir.store,
        k ∈ c.order refusals ∧ dir.store.done k = false ∧
          (dir.store.attempts k).length = attempt := fun k hk => by
      obtain ⟨hk, hnew⟩ := List.mem_filter.1 hk
      exact ⟨hk, by simpa using hnew⟩
    obtain ⟨halong, hfold⟩ := along_runTodo refusals c frozen hmatch hsessions attempt _ (fun k hk => (hmem k hk).1) dir hm
        fun hnodup => ⟨hnodup.filter _, fun k hk => (hmem k hk).2⟩
    obtain ⟨halong', hfold'⟩ := ih { dir with docs := (runTodo c (c.settings frozen)
      (m.sessions.length - 1) attempt (todo (c.order refusals) attempt dir.store)
        dir.store).1.docs } hm
    simp only [runPasses]
    rw [along_append, List.foldl_append, hfold]
    exact ⟨⟨halong, halong'⟩, hfold'⟩

/-- A call may go on with a directory that is empty or has its settings. -/
def Accepts (dir : Dir V) : Prop :=
  dir.manifest = none ∧ dir.docs.entries = [] ∨
    ∃ m, dir.manifest = some m ∧ mismatches m c = [] ∧ changed m frozen = []

/-- A call writes when it found out its frozen fields and accepts the directory. -/
theorem runCampaign_ok_iff {dir : Dir V} {saves : List (Save V)} :
    runCampaign refusals c dir = .ok saves ↔
      ∃ frozen, c.frozen = .ok frozen ∧ Accepts c frozen dir ∧
        saves = writeCampaign refusals c frozen dir := by
  rw [runCampaign]
  cases hm : dir.manifest with
  | none =>
    by_cases hempty : dir.docs.entries = []
    · cases hf : c.frozen <;> simp [Accepts, hm, hempty, eq_comm]
    · simp [Accepts, hm, hempty]
  | some m =>
    by_cases hmis : mismatches m c = []
    · cases hf : c.frozen with
      | error message => simp [hmis]
      | ok frozen =>
        by_cases hchanged : changed m frozen = [] <;>
          simp [Accepts, hm, hmis, hchanged, eq_comm]
    · simp [Accepts, hm, hmis]

omit [DecidableEq V] in
/-- A session lists itself, leaves every key done, and finishes. -/
theorem along_runSession (dir : Dir V) {m : Manifest V} (hm : dir.manifest = some m)
    (hmatch : m.Matches (c.settings frozen)) :
    let saves := runSession c (c.settings frozen) (c.order refusals) m dir.store
    Along Dir.commit (SaveStep refusals c frozen) dir saves ∧
      ∀ k ∈ c.order refusals, (saves.foldl Dir.commit dir).store.done k = true := by
  have hsessions : (m.addSession c.session).sessions ≠ [] := by simp [Manifest.addSession]
  obtain ⟨run, hrun⟩ : ∃ run, run = runPasses c (c.settings frozen)
    ((m.addSession c.session).sessions.length - 1) (c.order refusals) (List.range maxAttempts)
      dir.store := ⟨_, rfl⟩
  have hpasses : Along Dir.commit (SaveStep refusals c frozen)
        { dir with manifest := some (m.addSession c.session) } run.2 ∧
      run.2.foldl Dir.commit { dir with manifest := some (m.addSession c.session) } =
        { manifest := some (m.addSession c.session), docs := run.1.docs } :=
    hrun ▸ along_runPasses refusals c frozen (hmatch.addSession _) hsessions
      (List.range maxAttempts)
      { dir with manifest := some (m.addSession c.session) } rfl
  have hdone : ∀ k ∈ c.order refusals, run.1.done k = true := fun k hk =>
    hrun ▸ done_runPasses dir.store hk
  have hsaves : runSession c (c.settings frozen) (c.order refusals) m dir.store =
      .manifest (m.addSession c.session) ::
        (run.2 ++ [.manifest ((m.addSession c.session).finish c.finishedAt)]) := by
    rw [hrun]
    rfl
  obtain ⟨halong, hfold⟩ := hpasses
  rw [hsaves]
  refine ⟨⟨.session hm hmatch, (along_append _ _ _).2 ⟨halong, ?_, trivial⟩⟩, fun k hk => ?_⟩
  · change SaveStep refusals c frozen
      (run.2.foldl Dir.commit { dir with manifest := some (m.addSession c.session) }) _
    rw [hfold]
    exact .finish rfl (hmatch.addSession _) hdone
  · rw [List.foldl_cons, List.foldl_append]
    change Store.done (Dir.store (List.foldl Dir.commit
      (run.2.foldl Dir.commit { dir with manifest := some (m.addSession c.session) }) _)) k = true
    rw [hfold]
    exact hdone k hk

omit [DecidableEq V] in
theorem along_runOrder (dir : Dir V) {m : Manifest V} (hm : dir.manifest = some m)
    (hmatch : m.Matches (c.settings frozen)) :
    let saves := runOrder c (c.settings frozen) (c.order refusals) m dir.store
    Along Dir.commit (SaveStep refusals c frozen) dir saves ∧
      ∀ k ∈ c.order refusals, (saves.foldl Dir.commit dir).store.done k = true := by
  rw [runOrder]
  split
  · next hall =>
    have hdone : ∀ k ∈ c.order refusals, dir.store.done k = true := List.all_eq_true.1 hall
    split
    · exact ⟨⟨.finish hm hmatch hdone, trivial⟩, hdone⟩
    · exact ⟨trivial, hdone⟩
  · exact along_runSession refusals c frozen dir hm hmatch

/-- **Every save of a call is one of the five kinds**, and a call that reaches its end
leaves every key done. -/
theorem along_writeCampaign {dir : Dir V} (h : Accepts c frozen dir) :
    Along Dir.commit (SaveStep refusals c frozen) dir (writeCampaign refusals c frozen dir) ∧
      ∀ k ∈ c.order refusals,
        ((writeCampaign refusals c frozen dir).foldl Dir.commit dir).store.done k = true := by
  obtain ⟨manifest, docs⟩ := dir
  obtain ⟨m, hm⟩ : ∃ m, m = manifest.getD (newManifest c frozen) := ⟨_, rfl⟩
  have hmatch : m.Matches (c.settings frozen) := by
    rcases h with ⟨hnone, -⟩ | ⟨m', hsome, hmis, hchanged⟩
    · rw [hm, show manifest = none from hnone]
      exact matches_newManifest c frozen
    · rw [hm, show manifest = some m' from hsome]
      exact matches_of_accepted hmis hchanged
  have hfirst : Along Dir.commit (SaveStep refusals c frozen) ⟨manifest, docs⟩
      (if manifest.isNone then [Save.manifest m] else []) ∧
      (if manifest.isNone then [Save.manifest m] else []).foldl Dir.commit ⟨manifest, docs⟩ =
        ⟨some m, docs⟩ := by
    subst hm
    rcases h with ⟨hnone, hdocs⟩ | ⟨m', hsome, -⟩
    · obtain rfl : manifest = none := hnone
      exact ⟨⟨.start rfl hdocs, trivial⟩, rfl⟩
    · obtain rfl : manifest = some m' := hsome
      exact ⟨trivial, rfl⟩
  obtain ⟨run, hrun⟩ : ∃ run, run = addRefused refusals c.version
    (c.points.flatMap fun point => c.clients.map fun client => (client, point)) ⟨docs⟩ := ⟨_, rfl⟩
  have hrefused : Along Dir.commit (SaveStep refusals c frozen) ⟨some m, docs⟩ run.2 ∧
      run.2.foldl Dir.commit ⟨some m, docs⟩ = ⟨some m, run.1.docs⟩ :=
    hrun ▸ along_addRefused refusals c frozen _ ⟨some m, docs⟩ rfl hmatch
  obtain ⟨halong, hdone⟩ :=
    along_runOrder refusals c frozen ⟨some m, run.1.docs⟩ rfl hmatch
  have hsaves : writeCampaign refusals c frozen ⟨manifest, docs⟩ =
      (if manifest.isNone then [Save.manifest m] else []) ++ run.2 ++
        runOrder c (c.settings frozen) (c.order refusals) m run.1 := by
    rw [hm, hrun]
    rfl
  simp only [hsaves, along_append, List.foldl_append, hfirst.2, hrefused.2]
  exact ⟨⟨⟨hfirst.1, hrefused.1⟩, halong⟩, hdone⟩

theorem runCampaign_along {dir : Dir V} {saves : List (Save V)}
    (h : runCampaign refusals c dir = .ok saves) :
    ∃ frozen, Along Dir.commit (SaveStep refusals c frozen) dir saves ∧
      ∀ k ∈ c.order refusals, (saves.foldl Dir.commit dir).store.done k = true := by
  obtain ⟨frozen, -, haccepts, rfl⟩ := (runCampaign_ok_iff refusals c).1 h
  exact ⟨frozen, along_writeCampaign refusals c frozen haccepts⟩

/-! ## Sessions -/

/-- A campaign's directory, with its drafts. -/
abbrev Directory (V : Type) := Disk (Dir V) File (Save V)

/-- A directory in which nothing was written yet. -/
def Directory.empty : Directory V := ⟨⟨none, ∅⟩, [], fun _ => .absent⟩

/-- A call on a directory: what it loads must be readable. -/
def runIn (refusals : Refusals) (c : Call V) (d : Directory V) :
    Except Refusal (List (Save V)) :=
  if d.broken.isEmpty then runCampaign refusals c d.visible else .error .unreadable

/-- A call that is killed after so many operations, unless it ends before. -/
structure Session (V : Type) where
  call : Call V
  operations : ℕ

/-- What a session does to the directory. -/
def session (refusals : Refusals) (d : Directory V) (s : Session V) : Directory V :=
  match runIn refusals s.call d with
  | .error _ => d
  | .ok saves => kill Save.file Dir.commit saves s.operations d

theorem session_error {d : Directory V} {s : Session V} {e : Refusal}
    (h : runIn refusals s.call d = .error e) : session refusals d s = d := by
  rw [session, h]

/-- After a session the files are what a number of its saves left. -/
theorem session_ok {d : Directory V} {s : Session V} (hd : d.broken = [])
    {saves : List (Save V)} (h : runCampaign refusals s.call d.visible = .ok saves) :
    (session refusals d s).broken = [] ∧
      ∃ n, (session refusals d s).visible = (saves.take n).foldl Dir.commit d.visible := by
  rw [session, runIn, hd, List.isEmpty_nil, if_pos rfl, h]
  exact killed_saves Save.file Dir.commit saves s.operations d hd

/-- A session that reaches its end leaves every key done. -/
theorem session_done {d : Directory V} {s : Session V} (hd : d.broken = [])
    {saves : List (Save V)} (h : runCampaign refusals s.call d.visible = .ok saves)
    (hend : (saves.flatMap (ops Save.file)).length ≤ s.operations) :
    ∀ k ∈ s.call.order refusals, (session refusals d s).visible.store.done k = true := by
  obtain ⟨frozen, -, hdone⟩ := runCampaign_along refusals s.call h
  rw [session, runIn, hd, List.isEmpty_nil, if_pos rfl, h]
  simp only
  rw [kill_of_le Save.file Dir.commit hend]
  exact hdone

/-- What every save keeps holds after a session, killed or not. -/
theorem session_keeps {I : Dir V → Prop} {d : Directory V} {s : Session V}
    (hstep : ∀ frozen dir save, I dir → SaveStep refusals s.call frozen dir save →
      I (dir.commit save))
    (hd : d.broken = []) (hI : I d.visible) :
    (session refusals d s).broken = [] ∧ I (session refusals d s).visible := by
  cases hrun : runCampaign refusals s.call d.visible with
  | error e =>
    have hrefused : runIn refusals s.call d = .error e := by rw [runIn, hd]; exact hrun
    rw [session_error refusals hrefused]
    exact ⟨hd, hI⟩
  | ok saves =>
    obtain ⟨hbroken, n, hvisible⟩ := session_ok refusals hd hrun
    obtain ⟨frozen, halong, -⟩ := runCampaign_along refusals s.call hrun
    rw [hvisible]
    exact ⟨hbroken, (halong.take n).foldl hI fun dir save h hs => hstep frozen dir save h hs⟩

/-- **What every save keeps holds after any sessions**, and the directory stays readable. -/
theorem sessions_keep {I : Dir V → Prop} (sessions : List (Session V)) {d : Directory V}
    (hstep : ∀ s ∈ sessions, ∀ frozen dir save, I dir → SaveStep refusals s.call frozen dir save →
      I (dir.commit save))
    (hd : d.broken = []) (hI : I d.visible) :
    (sessions.foldl (session refusals) d).broken = [] ∧
      I (sessions.foldl (session refusals) d).visible := by
  induction sessions generalizing d with
  | nil => exact ⟨hd, hI⟩
  | cons s sessions ih =>
    obtain ⟨hbroken, hI'⟩ := session_keeps refusals (hstep s (by simp)) hd hI
    exact ih (fun s' hs' => hstep s' (by simp [hs'])) hbroken hI'

end Bench
