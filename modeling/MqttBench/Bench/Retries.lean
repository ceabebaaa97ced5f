import MqttBench.Bench.Sessions
import MqttBench.Report.Data

/-!
# Retry discipline

Over any sessions of a campaign, killed at any point, a run is tried again only when it
came back invalid, and at most once.

* `Tried` — the attempts at one key; `Tried.snoc` adds one.
* `RetryInv` — what every save keeps; `RetryInv.step` has one case for each kind.
* `campaign_disciplined` — **the discipline of every directory that sessions leave**, and
  the agreement with the report's final attempts.
-/

namespace Bench

open Report

variable {V : Type}

/-! ## One key -/

/-- The attempts at a key: numbered in file order, at most two, and only a last one can be
other than invalid. -/
structure Tried (attempts : List (Record V)) : Prop where
  atMost : attempts.length ≤ maxAttempts
  numbered : attempts.map Record.attempt = List.range attempts.length
  retried : ∀ r ∈ attempts.dropLast, r.status = .invalid

theorem tried_nil : Tried ([] : List (Record V)) := ⟨Nat.zero_le _, rfl, by simp⟩

/-- One more attempt, at a key that is not done. -/
theorem Tried.snoc {attempts : List (Record V)} {r : Record V} (h : Tried attempts)
    (hinvalid : ∀ r ∈ attempts, r.status = .invalid) (hlen : attempts.length < maxAttempts)
    (hr : r.attempt = attempts.length) : Tried (attempts ++ [r]) where
  atMost := by
    rw [List.length_append, List.length_singleton]
    exact hlen
  numbered := by
    rw [List.map_append, h.numbered, List.length_append, List.length_singleton, List.range_succ,
      List.map_singleton, hr]
  retried := by
    rw [List.dropLast_concat]
    exact hinvalid

/-- A key that is not done was tried in vain, and not too often. -/
theorem not_done {s : Store V} {k : Key} (h : s.done k = false) :
    (∀ r ∈ s.attempts k, r.status = .invalid) ∧ (s.attempts k).length < maxAttempts := by
  have hnot : ¬ s.done k = true := by simp [h]
  rw [done_iff] at hnot
  push Not at hnot
  exact hnot

/-! ## Every save -/

/-- What holds of the files between any two saves. -/
structure RetryInv (refusals : Refusals) (dir : Dir V) : Prop where
  tried : ∀ k, Tried (dir.store.attempts k)
  /-- A record's session is in the manifest. -/
  listed : ∀ client, ∀ r ∈ dir.store.runs client,
    ∃ m, dir.manifest = some m ∧ r.session < m.sessions.length
  /-- A finished campaign has nothing left to do. -/
  finished : ∀ m, dir.manifest = some m → m.finishedAt ≠ none →
    ∀ points, points.map Point.asDict = m.points →
      ∀ k ∈ plan refusals points (m.clients.map Prod.fst) m.runsPerPoint, dir.store.done k = true

theorem retryInv_empty (refusals : Refusals) :
    RetryInv refusals (Directory.empty : Directory V).visible where
  tried _ := tried_nil
  listed _ r hr := absurd hr List.not_mem_nil
  finished _ hm := by cases hm

/-- More records of done keys leave a finished campaign finished. -/
theorem RetryInv.finished_mono {refusals : Refusals} {dir dir' : Dir V}
    (h : RetryInv refusals dir) (hm : dir'.manifest = dir.manifest)
    (hdone : ∀ k, dir.store.done k = true → dir'.store.done k = true) :
    ∀ m, dir'.manifest = some m → m.finishedAt ≠ none →
      ∀ points, points.map Point.asDict = m.points →
        ∀ k ∈ plan refusals points (m.clients.map Prod.fst) m.runsPerPoint,
          dir'.store.done k = true :=
  fun m hm' hf points hp k hk => hdone k (h.finished m (hm ▸ hm') hf points hp k hk)

/-- The keys of a manifest are the keys of the calls that it matches. -/
theorem order_of_matches {refusals : Refusals} {c : Call V} {frozen : Frozen → V}
    {m : Manifest V} (h : m.Matches (c.settings frozen)) {points : List Point}
    (hp : points.map Point.asDict = m.points) {k : Key}
    (hk : k ∈ plan refusals points (m.clients.map Prod.fst) m.runsPerPoint) :
    k ∈ c.order refusals := by
  have hpoints : points = c.points :=
    List.map_injective_iff.2 asDict_injective (hp.trans h.points)
  rw [h.clients, h.runs, hpoints, mem_plan] at hk
  obtain ⟨point, hpoint, hname, hclient, hable, hrun⟩ := hk
  exact mem_plan.2 ⟨point, hpoint, hname, List.mem_eraseDups.1 hclient, hable, hrun⟩

/-- **Every save keeps the discipline.** -/
theorem RetryInv.step {refusals : Refusals} {c : Call V} {frozen : Frozen → V} {dir : Dir V}
    {save : Save V} (hplan : (c.order refusals).Nodup) (h : RetryInv refusals dir)
    (hs : SaveStep refusals c frozen dir save) : RetryInv refusals (dir.commit save) := by
  cases hs with
  | start hnone hdocs =>
    have hruns : ∀ client, dir.store.runs client = [] := fun client => by
      rw [Store.runs, AList.lookup_eq_none.2]
      rw [AList.mem_keys, AList.keys]
      simp [Dir.store, hdocs]
    refine ⟨h.tried, fun client r hr => ?_, fun m hm hf => ?_⟩
    · have hr' : r ∈ dir.store.runs client := hr
      rw [hruns] at hr'
      cases hr'
    · obtain rfl := Option.some.inj hm
      exact absurd rfl hf
  | refused client point reasons hm hmatch hnew =>
    have hruns : ∀ client', (dir.commit (.doc client ((dir.store.doc c.version client).refuse point
        reasons))).store.runs client' = dir.store.runs client' := fun client' =>
      runs_refuse dir.store c.version client point reasons client'
    have hattempts : ∀ k, (dir.commit (.doc client ((dir.store.doc c.version client).refuse point
        reasons))).store.attempts k = dir.store.attempts k := fun k => by
      rw [Store.attempts, hruns, Store.attempts]
    refine ⟨fun k => hattempts k ▸ h.tried k, fun client' r hr => ?_,
      h.finished_mono rfl fun k hk => (done_congr (hattempts k)).trans hk⟩
    rw [hruns] at hr
    exact h.listed client' r hr
  | @session m hm hmatch =>
    refine ⟨h.tried, fun client r hr => ?_, fun m' hm' hf points hp k hk => ?_⟩
    · obtain ⟨m₀, hm₀, hlt⟩ := h.listed client r hr
      obtain rfl := Option.some.inj (hm.symm.trans hm₀)
      exact ⟨_, rfl, hlt.trans (by simp [Manifest.addSession])⟩
    · obtain rfl := Option.some.inj hm'
      exact h.finished m hm hf points hp k hk
  | @record m k attempt hm hmatch hsessions hk hfresh =>
    obtain ⟨hdone, hlen⟩ := hfresh hplan
    obtain ⟨hinvalid, hfew⟩ := not_done hdone
    have hattempts : ∀ k', (dir.commit (dir.store.add c.version k.client
        (c.outcome k attempt).identity (c.record (c.settings frozen) (m.sessions.length - 1)
          attempt k)).2).store.attempts k' = dir.store.attempts k' ++
        if k' = k then [c.record (c.settings frozen) (m.sessions.length - 1) attempt k] else [] :=
      fun k' => attempts_add dir.store c.version k.client _ _ k'
    refine ⟨fun k' => ?_, fun client r hr => ?_, h.finished_mono rfl fun k' hk' => ?_⟩
    · rw [hattempts]
      by_cases hkk : k' = k
      · rw [if_pos hkk, hkk]
        exact (h.tried k).snoc hinvalid hfew hlen.symm
      · rw [if_neg hkk, List.append_nil]
        exact h.tried k'
    · have hr' : r ∈ dir.store.runs client ++ if client = k.client then
          [c.record (c.settings frozen) (m.sessions.length - 1) attempt k] else [] :=
        runs_add dir.store c.version k.client _ _ client ▸ hr
      rcases List.mem_append.1 hr' with hr' | hr'
      · exact h.listed client r hr'
      · split at hr'
        · rw [List.mem_singleton.1 hr']
          have := List.length_pos_iff.2 hsessions
          exact ⟨m, hm, by simp only [Call.record]; omega⟩
        · cases hr'
    · exact done_mono (hattempts k' ▸ List.prefix_append _ _) hk'
  | @finish m hm hmatch hall =>
    refine ⟨h.tried, fun client r hr => ?_, fun m' hm' hf points hp k hk => ?_⟩
    · obtain ⟨m₀, hm₀, hlt⟩ := h.listed client r hr
      obtain rfl := Option.some.inj (hm.symm.trans hm₀)
      exact ⟨_, rfl, hlt⟩
    · obtain rfl := Option.some.inj hm'
      exact hall k (order_of_matches hmatch hp hk)

/-! ## Every directory -/

/-- The records of a cell of the report. -/
def cellRuns (dir : Dir V) (point client : String) : List (Record V) :=
  (dir.store.runs client).filter fun r => r.point = point

theorem byIndex_cellRuns (dir : Dir V) (k : Key) :
    byIndex (cellRuns dir k.point k.client) k.run = dir.store.attempts k := by
  rw [byIndex, cellRuns, List.filter_filter, Store.attempts]
  exact List.filter_congr fun r _ => by rw [← Bool.decide_and]; exact decide_eq_decide.2 and_comm

/-- What a reader of the directory can rely on. -/
structure Disciplined (refusals : Refusals) (d : Directory V) : Prop where
  /-- No file is cut short. -/
  readable : d.broken = []
  atMost : ∀ k, (d.visible.store.attempts k).length ≤ maxAttempts
  /-- The attempts are numbered in file order. -/
  numbered : ∀ k, (d.visible.store.attempts k).map Record.attempt =
    List.range (d.visible.store.attempts k).length
  /-- Nothing follows a record that is not invalid. -/
  retried : ∀ k, ∀ r ∈ (d.visible.store.attempts k).dropLast, r.status = .invalid
  listed : ∀ client, ∀ r ∈ d.visible.store.runs client,
    ∃ m, d.visible.manifest = some m ∧ r.session < m.sessions.length
  finished : ∀ m, d.visible.manifest = some m → m.finishedAt ≠ none →
    ∀ points, points.map Point.asDict = m.points →
      ∀ k ∈ plan refusals points (m.clients.map Prod.fst) m.runsPerPoint,
        d.visible.store.done k = true
  /-- The report keeps the last attempt at each key and files the others as retried. -/
  kept : ∀ k : Key, byIndex (finalAttempts (cellRuns d.visible k.point k.client)).1 k.run =
    (d.visible.store.attempts k).getLast?.toList
  filed : ∀ k : Key, byIndex (finalAttempts (cellRuns d.visible k.point k.client)).2 k.run =
    (d.visible.store.attempts k).dropLast
  invalid : ∀ point client, ∀ r ∈ (finalAttempts (cellRuns d.visible point client)).2,
    r.status = .invalid

theorem RetryInv.disciplined {refusals : Refusals} {d : Directory V} (hd : d.broken = [])
    (h : RetryInv refusals d.visible) : Disciplined refusals d := by
  have hfinal : ∀ k : Key,
      byIndex (finalAttempts (cellRuns d.visible k.point k.client)).1 k.run =
        (d.visible.store.attempts k).getLast?.toList ∧
      byIndex (finalAttempts (cellRuns d.visible k.point k.client)).2 k.run =
        (d.visible.store.attempts k).dropLast := fun k => by
    have hnumbered : ∀ index,
        (byIndex (cellRuns d.visible k.point k.client) index).map Record.attempt =
          List.range (byIndex (cellRuns d.visible k.point k.client) index).length := fun index => by
      rw [byIndex_cellRuns d.visible ⟨k.point, k.client, index⟩]
      exact (h.tried _).numbered
    rw [← byIndex_cellRuns]
    exact finalAttempts_of_numbered hnumbered k.run
  exact
    { readable := hd
      atMost := fun k => (h.tried k).atMost
      numbered := fun k => (h.tried k).numbered
      retried := fun k => (h.tried k).retried
      listed := h.listed
      finished := h.finished
      kept := fun k => (hfinal k).1
      filed := fun k => (hfinal k).2
      invalid := fun point client r hr => by
        have hmem : r ∈ byIndex (finalAttempts (cellRuns d.visible point client)).2 r.runIndex :=
          List.mem_filter.2 ⟨hr, by simp⟩
        rw [(hfinal ⟨point, client, r.runIndex⟩).2] at hmem
        exact (h.tried _).retried r hmem }

/-- **Retry discipline**: over any sessions, each killed at any point, of calls that plan no
key twice; and a session that reaches its end leaves every key done. -/
theorem campaign_disciplined [DecidableEq V] (refusals : Refusals) (sessions : List (Session V))
    (hplan : ∀ s ∈ sessions, (s.call.order refusals).Nodup) :
    let d := sessions.foldl (session refusals) Directory.empty
    Disciplined refusals d ∧
      ∀ (s : Session V) saves, runCampaign refusals s.call d.visible = .ok saves →
        (saves.flatMap (AtomicSave.ops Save.file)).length ≤ s.operations →
          ∀ k ∈ s.call.order refusals, (session refusals d s).visible.store.done k = true := by
  obtain ⟨hd, hinv⟩ := sessions_keep refusals sessions (I := RetryInv refusals)
    (fun s hs frozen dir save h => h.step (hplan s hs)) (d := Directory.empty) rfl
      (retryInv_empty refusals)
  exact ⟨hinv.disciplined hd, fun s saves hrun hend => session_done refusals hd hrun hend⟩

/-- One client at one point, whose first attempts come back invalid. -/
def exampleCall : Call Unit where
  name := "example"
  points := [{ name := "pub_qos0_max", kind := .pub, question := "" }]
  clients := ["paho"]
  profile := ⟨"smoke", 1 / 2, 2, 1, 1, false⟩
  runs := none
  frozen := .ok fun _ => ()
  version := fun _ => "1.0"
  session := ()
  outcome := fun _ attempt => ⟨if attempt = 0 then .invalid else .valid, none⟩
  startedAt := ""
  finishedAt := ""

/-- A session killed while the record of the first attempt is a draft, and one that runs to
its end. -/
def exampleSessions : List (Session Unit) := [⟨exampleCall, 8⟩, ⟨exampleCall, 100⟩]

theorem campaign_disciplined_example :
    Disciplined (fun _ _ => [])
      (exampleSessions.foldl (session fun _ _ => []) Directory.empty) :=
  (campaign_disciplined (fun _ _ => []) exampleSessions (by decide)).1

example : ((exampleSessions.foldl (session fun _ _ => []) Directory.empty).visible.store.attempts
    ⟨"pub_qos0_max", "paho", 0⟩).map Record.session = [1, 1] := by decide +kernel

end Bench
