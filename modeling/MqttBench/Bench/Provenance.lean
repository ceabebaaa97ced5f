import MqttBench.Bench.Sessions

/-!
# One campaign, one set of settings

A directory never mixes settings: the first manifest fixes them, and a call with others
refuses before it writes.

* `Differs` — the directories that a call must refuse; `runIn_of_differs` — it does.
* `Manifest.Same` — settings that no save changes.
* `campaign_unmixed` — **what holds of every directory that sessions leave.**
-/

namespace Bench

open Traces

variable {V : Type} [DecidableEq V]

/-! ## Refusing -/

/-- The directory was started with other settings, or there is no telling. -/
inductive Differs (c : Call V) (dir : Dir V) : Prop
  | profile {m : Manifest V} : dir.manifest = some m → m.profile ≠ c.profile → Differs c dir
  | points {m : Manifest V} :
      dir.manifest = some m → m.points ≠ c.points.map Point.asDict → Differs c dir
  | clients {m : Manifest V} :
      dir.manifest = some m → m.clients.map Prod.fst ≠ c.clients → Differs c dir
  | runs {m : Manifest V} :
      dir.manifest = some m → m.runsPerPoint ≠ c.runsPerPoint → Differs c dir
  | frozen {m : Manifest V} {frozen : Frozen → V} (f : Frozen) : dir.manifest = some m →
      c.frozen = .ok frozen → m.frozen f ≠ some (frozen f) → Differs c dir
  | absent {m : Manifest V} (f : Frozen) :
      dir.manifest = some m → m.frozen f = none → Differs c dir
  | orphans : dir.manifest = none → dir.docs.entries ≠ [] → Differs c dir

/-- **A call refuses what differs.** -/
theorem runIn_of_differs (refusals : Refusals) {c : Call V} {d : Directory V}
    (h : Differs c d.visible) : ∃ e, runIn refusals c d = .error e := by
  cases hrun : runIn refusals c d with
  | error e => exact ⟨e, rfl⟩
  | ok saves =>
    exfalso
    have hok : runCampaign refusals c d.visible = .ok saves := by
      rw [runIn] at hrun
      split at hrun
      · exact hrun
      · cases hrun
    obtain ⟨frozen, hfrozen, haccepts, -⟩ := (runCampaign_ok_iff refusals c).1 hok
    have hsome : ∀ {m}, d.visible.manifest = some m →
        mismatches m c = [] ∧ ∀ f, m.frozen f = some (frozen f) := fun {m} hm => by
      rcases haccepts with ⟨hnone, -⟩ | ⟨m', hm', hmis, hchanged⟩
      · rw [hnone] at hm
        cases hm
      · obtain rfl := Option.some.inj (hm.symm.trans hm')
        exact ⟨hmis, changed_eq_nil.1 hchanged⟩
    cases h with
    | profile hm hne => exact hne (mismatches_eq_nil.1 (hsome hm).1).1
    | points hm hne => exact hne (mismatches_eq_nil.1 (hsome hm).1).2.1
    | clients hm hne => exact hne (mismatches_eq_nil.1 (hsome hm).1).2.2.1
    | runs hm hne => exact hne (mismatches_eq_nil.1 (hsome hm).1).2.2.2
    | frozen f hm hf hne =>
      obtain rfl := Except.ok.inj (hfrozen.symm.trans hf)
      exact hne ((hsome hm).2 f)
    | absent f hm hnone =>
      rw [(hsome hm).2 f] at hnone
      cases hnone
    | orphans hm hne =>
      rcases haccepts with ⟨-, hdocs⟩ | ⟨m', hm', -⟩
      · exact hne hdocs
      · rw [hm] at hm'
        cases hm'

/-! ## Writing -/

/-- Two manifests with the same settings. -/
structure Manifest.Same (m m' : Manifest V) : Prop where
  profile : m.profile = m'.profile
  points : m.points = m'.points
  clients : m.clients = m'.clients
  runs : m.runsPerPoint = m'.runsPerPoint
  frozen : m.frozen = m'.frozen

omit [DecidableEq V] in
theorem Manifest.Same.rfl {m : Manifest V} : m.Same m := ⟨Eq.refl _, Eq.refl _, Eq.refl _,
  Eq.refl _, Eq.refl _⟩

/-- What a call adds to the records of each client, under its settings. -/
def Appends (s : Settings V) (dir dir' : Dir V) : Prop :=
  ∀ client, ∃ new, dir'.store.runs client = dir.store.runs client ++ new ∧ ∀ r ∈ new, r.under = s

/-- The manifest fits the records. -/
def Recorded (dir : Dir V) : Prop :=
  ∀ client, ∀ r ∈ dir.store.runs client, ∃ m, dir.manifest = some m ∧ m.Matches r.under

omit [DecidableEq V] in
/-- A save adds at most one record, under the settings of its call. -/
theorem SaveStep.appends {refusals : Refusals} {c : Call V} {frozen : Frozen → V} {dir : Dir V}
    {save : Save V} (h : SaveStep refusals c frozen dir save) :
    Appends (c.settings frozen) dir (dir.commit save) := by
  intro client
  cases h with
  | refused client' point reasons _ _ _ =>
    refine ⟨[], ?_, fun r hr => absurd hr List.not_mem_nil⟩
    rw [List.append_nil]
    exact runs_refuse dir.store c.version client' point reasons client
  | @record m k attempt _ _ _ _ _ =>
    refine ⟨_, runs_add dir.store c.version k.client _ _ client, fun r hr => ?_⟩
    split at hr
    · rw [List.mem_singleton.1 hr]
      rfl
    · cases hr
  | start => exact ⟨[], (List.append_nil _).symm, fun r hr => absurd hr List.not_mem_nil⟩
  | session => exact ⟨[], (List.append_nil _).symm, fun r hr => absurd hr List.not_mem_nil⟩
  | finish => exact ⟨[], (List.append_nil _).symm, fun r hr => absurd hr List.not_mem_nil⟩

omit [DecidableEq V] in
theorem Appends.trans {s : Settings V} {dir dir' dir'' : Dir V} (h : Appends s dir dir')
    (h' : Appends s dir' dir'') : Appends s dir dir'' := by
  intro client
  obtain ⟨new, hnew, hunder⟩ := h client
  obtain ⟨new', hnew', hunder'⟩ := h' client
  refine ⟨new ++ new', by rw [hnew', hnew, List.append_assoc], fun r hr => ?_⟩
  exact (List.mem_append.1 hr).elim (hunder r) (hunder' r)

omit [DecidableEq V] in
/-- After a save the manifest is there, with the settings of the call, and those of the
manifest before. -/
theorem SaveStep.matches {refusals : Refusals} {c : Call V} {frozen : Frozen → V} {dir : Dir V}
    {save : Save V} (h : SaveStep refusals c frozen dir save) :
    ∃ m', (dir.commit save).manifest = some m' ∧ m'.Matches (c.settings frozen) ∧
      ∀ m, dir.manifest = some m → m'.Same m := by
  cases h with
  | start hnone hdocs =>
    exact ⟨_, rfl, matches_newManifest c frozen, fun m hm => by rw [hnone] at hm; cases hm⟩
  | @refused m client point reasons hm hmatch _ =>
    exact ⟨m, hm, hmatch, fun m' hm' => Option.some.inj (hm.symm.trans hm') ▸ .rfl⟩
  | @session m hm hmatch =>
    refine ⟨_, rfl, hmatch.addSession _, fun m' hm' => ?_⟩
    obtain rfl := Option.some.inj (hm.symm.trans hm')
    exact ⟨rfl, rfl, rfl, rfl, rfl⟩
  | @record m k attempt hm hmatch _ _ _ =>
    exact ⟨m, hm, hmatch, fun m' hm' => Option.some.inj (hm.symm.trans hm') ▸ .rfl⟩
  | @finish m hm hmatch _ =>
    refine ⟨_, rfl, hmatch.finish _, fun m' hm' => ?_⟩
    obtain rfl := Option.some.inj (hm.symm.trans hm')
    exact ⟨rfl, rfl, rfl, rfl, rfl⟩

omit [DecidableEq V] in
theorem Manifest.Matches.of_same {m m' : Manifest V} {s : Settings V} (h : m.Matches s)
    (hs : m'.Same m) : m'.Matches s :=
  ⟨hs.profile.trans h.profile, hs.points.trans h.points, hs.clients ▸ h.clients,
    hs.runs.trans h.runs, hs.frozen ▸ h.frozen⟩

omit [DecidableEq V] in
theorem Recorded.step {refusals : Refusals} {c : Call V} {frozen : Frozen → V} {dir : Dir V}
    {save : Save V} (h : Recorded dir) (hs : SaveStep refusals c frozen dir save) :
    Recorded (dir.commit save) := by
  intro client r hr
  obtain ⟨m', hm', hmatch, hsame⟩ := hs.matches
  obtain ⟨new, hnew, hunder⟩ := hs.appends client
  rw [hnew] at hr
  rcases List.mem_append.1 hr with hr | hr
  · obtain ⟨m, hm, hfits⟩ := h client r hr
    exact ⟨m', hm', hfits.of_same (hsame m hm)⟩
  · exact ⟨m', hm', (hunder r hr).symm ▸ hmatch⟩

/-! ## Every directory -/

/-- What holds of a directory, whatever comes next. -/
structure Unmixed (refusals : Refusals) (d : Directory V) : Prop where
  /-- Every record was produced under the settings of the manifest. -/
  recorded : Recorded d.visible
  /-- A call that refuses leaves every file and every draft as it is. -/
  untouched : ∀ (s : Session V) e, runIn refusals s.call d = .error e →
    session refusals d s = d
  /-- A call that does not refuse adds records under its own settings, which are those of
  the manifest then. -/
  appends : ∀ (s : Session V) saves, runIn refusals s.call d = .ok saves →
    ∃ frozen, s.call.frozen = .ok frozen ∧ ∀ client, ∃ new,
      (session refusals d s).visible.store.runs client = d.visible.store.runs client ++ new ∧
        ∀ r ∈ new, r.under = s.call.settings frozen ∧
          ∃ m, (session refusals d s).visible.manifest = some m ∧ m.Matches r.under
  /-- The settings of the manifest stay those of the first one. -/
  kept : ∀ (sessions : List (Session V)) m, d.visible.manifest = some m →
    ∃ m', (sessions.foldl (session refusals) d).visible.manifest = some m' ∧ m'.Same m

omit [DecidableEq V] in
theorem Manifest.Same.trans {m m' m'' : Manifest V} (h : m.Same m') (h' : m'.Same m'') :
    m.Same m'' :=
  ⟨h.profile.trans h'.profile, h.points.trans h'.points, h.clients.trans h'.clients,
    h.runs.trans h'.runs, h.frozen.trans h'.frozen⟩

/-- The settings of a manifest stay, over any sessions. -/
theorem same_sessions (refusals : Refusals) (sessions : List (Session V)) {d : Directory V}
    (hd : d.broken = []) {m : Manifest V} (hm : d.visible.manifest = some m) :
    ∃ m', (sessions.foldl (session refusals) d).visible.manifest = some m' ∧ m'.Same m := by
  refine (sessions_keep refusals sessions
    (I := fun dir => ∃ m', dir.manifest = some m' ∧ m'.Same m) ?_ hd ⟨m, hm, .rfl⟩).2
  rintro s - frozen dir save ⟨m', hm', hsame⟩ hs
  obtain ⟨m'', hm'', -, hkept⟩ := hs.matches
  exact ⟨m'', hm'', (hkept m' hm').trans hsame⟩

/-- A session of a call that does not refuse adds records under its settings. -/
theorem appends_session (refusals : Refusals) {d : Directory V} {s : Session V}
    (hd : d.broken = []) (hrecorded : Recorded d.visible) {saves : List (Save V)}
    (h : runCampaign refusals s.call d.visible = .ok saves) :
    ∃ frozen, s.call.frozen = .ok frozen ∧ Recorded (session refusals d s).visible ∧
      Appends (s.call.settings frozen) d.visible (session refusals d s).visible := by
  obtain ⟨frozen, hfrozen, haccepts, hsaves⟩ := (runCampaign_ok_iff refusals s.call).1 h
  obtain ⟨-, n, hvisible⟩ := session_ok refusals hd h
  have halong := (along_writeCampaign refusals s.call frozen haccepts).1
  rw [← hsaves] at halong
  rw [hvisible]
  refine ⟨frozen, hfrozen, (halong.take n).foldl
    (I := fun dir => Recorded dir ∧ Appends (s.call.settings frozen) d.visible dir)
    ⟨hrecorded, fun client => ⟨[], (List.append_nil _).symm, fun r hr => absurd hr List.not_mem_nil⟩⟩
    fun dir save hI hs => ⟨hI.1.step hs, hI.2.trans hs.appends⟩⟩

/-- **A campaign directory never mixes settings**, over any sessions, each killed at any
point; and a call refuses whatever differs. -/
theorem campaign_unmixed (refusals : Refusals) (sessions : List (Session V)) :
    Unmixed refusals (sessions.foldl (session refusals) Directory.empty) ∧
      ∀ (d : Directory V) (c : Call V), Differs c d.visible →
        ∃ e, runIn refusals c d = .error e := by
  obtain ⟨hd, hrecorded⟩ := sessions_keep refusals sessions (I := Recorded)
    (fun s _ frozen dir save h => h.step) (d := Directory.empty) rfl
      fun client r hr => absurd hr List.not_mem_nil
  refine ⟨⟨hrecorded, fun s e => session_error refusals, fun s saves hrun => ?_,
    fun later m hm => same_sessions refusals later hd hm⟩, fun d c => runIn_of_differs refusals⟩
  rw [runIn, hd] at hrun
  obtain ⟨frozen, hfrozen, hafter, happends⟩ := appends_session refusals hd hrecorded hrun
  refine ⟨frozen, hfrozen, fun client => ?_⟩
  obtain ⟨new, hnew, hunder⟩ := happends client
  exact ⟨new, hnew, fun r hr => ⟨hunder r hr,
    hafter client r (hnew ▸ List.mem_append_right _ hr)⟩⟩

/-- One client named twice, and a session that runs to its end. -/
def repeatedCall : Call Unit where
  name := "example"
  points := [{ name := "pub_qos0_max", kind := .pub, question := "" }]
  clients := ["paho", "paho"]
  profile := ⟨"smoke", 1 / 2, 2, 1, 1, false⟩
  runs := none
  frozen := .ok fun _ => ()
  version := fun _ => "1.0"
  session := ()
  outcome := fun _ _ => ⟨.valid, none⟩
  startedAt := ""
  finishedAt := ""

/-- The clients of a record's call are not always those that the manifest lists. -/
theorem campaign_repeats_client :
    ¬ ∀ sessions : List (Session Unit),
      let dir := (sessions.foldl (session fun _ _ => []) Directory.empty).visible
      ∀ client, ∀ r ∈ dir.store.runs client,
        ∃ m, dir.manifest = some m ∧ m.clients.map Prod.fst = r.under.clients := by
  intro h
  have hruns : (((([⟨repeatedCall, 100⟩] : List (Session Unit)).foldl (session fun _ _ => [])
      Directory.empty).visible.store.runs "paho").map fun r => r.under.clients) =
        [["paho", "paho"], ["paho", "paho"]] := by decide +kernel
  have hmanifest : ((([⟨repeatedCall, 100⟩] : List (Session Unit)).foldl (session fun _ _ => [])
      Directory.empty).visible.manifest.map fun m => m.clients.map Prod.fst) =
        some ["paho"] := by decide +kernel
  have hmem := List.mem_of_mem_head? (a := ["paho", "paho"]) (congrArg List.head? hruns)
  obtain ⟨r, hr, hunder⟩ := List.mem_map.1 hmem
  obtain ⟨m, hm, hclients⟩ := h [⟨repeatedCall, 100⟩] "paho" r hr
  rw [hm, Option.map_some, hclients, hunder] at hmanifest
  exact absurd hmanifest (by decide)

end Bench
