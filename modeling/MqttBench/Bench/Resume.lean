import MqttBench.Bench.Provenance
import MqttBench.Lib.PyData

/-!
# Resuming a campaign

`resume_settings` and `_mismatches` of `bench/campaign.py` on the manifest as JSON reads it
back, and `as_dict` of `bench/catalog.py` as the dictionary that is written.

* `Point.toDict`, `Manifest.toDict` — what is written.
* `toDict_injective` — **no two points are written alike**, not even to `==`.
* `resumeSettings`, `mismatchesOf` — the program.
* `resumeSettings_written` — **resuming reads back what was started**, and refuses a point
  that the catalogue has changed.
-/

namespace Bench

open PyData Traces

/-! ## Points -/

/-- A field of a record. -/
def Value.py : Value → Py
  | .int n => .int n
  | .str s => .str s
  | .bool b => .bool b
  | .ints ns => .list (ns.map .int)

/-- A field of the dataclass, in which the lengths are a tuple. -/
def Value.field : Value → Py
  | .int n => .int n
  | .str s => .str s
  | .bool b => .bool b
  | .ints ns => .tuple (ns.map .int)

/-- `list(v)`, of a tuple. -/
def asList : Py → Py
  | .tuple xs => .list xs
  | v => v

/-- The loop over `_EXTENDED_DEFAULTS`. -/
def deleteDefaults : List (String × Value) → List (String × Py) → List (String × Py)
  | [], out => out
  | (key, default) :: defaults, out =>
    deleteDefaults defaults
      (match out.lookup key with
        | some v => if v.eq default.field then out.filter fun e => e.1 ≠ key else out
        | none => out)

/-- `as_dict`. -/
def Point.toDict (p : Point) : List (String × Py) :=
  let out := deleteDefaults extendedDefaults (p.fields.map fun e => (e.1, e.2.field))
  out.map fun e => if e.1 = "remaining_lengths" then (e.1, asList e.2) else e

/-- Two values of one of the types that a field can have. -/
def Value.SameType : Value → Value → Prop
  | .int _, .int _ | .str _, .str _ | .bool _, .bool _ | .ints _, .ints _ => True
  | _, _ => False

theorem Value.SameType.eq_py {v w : Value} (h : v.SameType w) : v.py.eq w.py = true ↔ v = w := by
  cases v <;> cases w <;> first | exact absurd h id | skip
  · simp [Value.py, Py.eq, Py.number]
  · simp [Value.py, Py.eq]
  · next a b => cases a <;> cases b <;> simp [Value.py, Py.eq, Py.number]
  · simp [Value.py, Py.eq, eqs_ints]

theorem Value.SameType.eq_field {v w : Value} (h : v.SameType w) :
    v.field.eq w.field = true ↔ v = w := by
  cases v <;> cases w <;> first | exact absurd h id | skip
  · simp [Value.field, Py.eq, Py.number]
  · simp [Value.field, Py.eq]
  · next a b => cases a <;> cases b <;> simp [Value.field, Py.eq, Py.number]
  · simp [Value.field, Py.eq, eqs_ints]

/-- What two tables with the same keys in the same order hold for a key is related. -/
theorem lookup_of_forall₂ {α β : Type*} {R : α → β → Prop} {es : List (String × α)}
    {fs : List (String × β)} (h : List.Forall₂ (fun e f => e.1 = f.1 ∧ R e.2 f.2) es fs)
    {k : String} {v : α} {w : β} (hv : es.lookup k = some v) (hw : fs.lookup k = some w) :
    R v w := by
  induction h with
  | nil => cases hv
  | @cons e f es fs hef _ ih =>
    rw [List.lookup_cons] at hv hw
    rw [← hef.1] at hw
    by_cases hk : (k == e.1) = true
    · simp only [hk, Option.some.injEq] at hv hw
      rw [← hv, ← hw]
      exact hef.2
    · simp only [Bool.eq_false_of_not_eq_true hk] at hv hw
      exact ih hv hw

/-- A field has the same type in every point. -/
theorem sameType_of_mem {p p' : Point} {e e' : String × Value} (he : e ∈ p.fields)
    (he' : e' ∈ p'.fields) (hkey : e.1 = e'.1) : e.2.SameType e'.2 := by
  have hall : List.Forall₂ (fun f f' : String × Value => f.1 = f'.1 ∧ f.2.SameType f'.2)
      p.fields p'.fields := by
    unfold Point.fields
    repeat' constructor
  apply lookup_of_forall₂ hall (lookup_of_mem (fields_nodup p) he)
  rw [hkey]
  exact lookup_of_mem (fields_nodup p') he'

/-- The defaults are the fields of a point that sets none of the extended knobs. -/
theorem extendedDefaults_subset {d : String × Value} (h : d ∈ extendedDefaults) :
    d ∈ Point.fields { name := "", kind := .pub, question := "" } := by
  simp only [extendedDefaults, List.mem_cons, List.not_mem_nil, or_false] at h
  rcases h with rfl | rfl | rfl | rfl | rfl | rfl | rfl <;> simp [Point.fields]

/-- The loop deletes the items that have their defaults. -/
theorem deleteDefaults_eq_filter (defaults : List (String × Value)) (out : List (String × Py))
    (h : (out.map Prod.fst).Nodup) : deleteDefaults defaults out =
      out.filter fun e => decide (∀ d ∈ defaults, d.1 = e.1 → e.2.eq d.2.field = false) := by
  induction defaults generalizing out with
  | nil => simp [deleteDefaults]
  | cons d defaults ih =>
    obtain ⟨key, default⟩ := d
    have hstep : (match out.lookup key with
        | some v => if v.eq default.field then out.filter fun e => e.1 ≠ key else out
        | none => out) =
        out.filter fun e => decide (key = e.1 → e.2.eq default.field = false) := by
      cases hv : out.lookup key with
      | none =>
        rw [List.lookup_eq_none_iff] at hv
        refine (List.filter_eq_self.2 ?_).symm
        intro e he
        have hne := hv e he
        simp only [bne_iff_ne, ne_eq] at hne
        exact decide_eq_true fun heq => absurd heq hne
      | some v =>
        have hvalue : ∀ e ∈ out, key = e.1 → e.2 = v := by
          rintro e he rfl
          rw [lookup_of_mem h he] at hv
          exact Option.some.inj hv
        by_cases hdefault : v.eq default.field = true
        · simp only [if_pos hdefault]
          apply List.filter_congr
          intro e he
          apply decide_eq_decide.2
          constructor
          · intro hne heq
            exact absurd heq.symm hne
          · intro hkeep heq
            have hfalse := hkeep heq.symm
            rw [hvalue e he heq.symm, hdefault] at hfalse
            cases hfalse
        · simp only [if_neg hdefault]
          refine (List.filter_eq_self.2 fun e he => decide_eq_true ?_).symm
          intro heq
          rw [hvalue e he heq]
          exact Bool.eq_false_of_not_eq_true hdefault
    have hnodup : ((out.filter fun e => decide (key = e.1 → e.2.eq default.field = false)).map
        Prod.fst).Nodup := h.sublist (List.filter_sublist.map _)
    rw [deleteDefaults, hstep, ih _ hnodup, List.filter_filter]
    apply List.filter_congr
    intro e _
    simp only [List.forall_mem_cons, Bool.decide_and]
    exact Bool.and_comm _ _

/-- **What is written of a point is what is recorded of it.** -/
theorem toDict_eq (p : Point) : p.toDict = p.asDict.map fun e => (e.1, e.2.py) := by
  have hkeys : ((p.fields.map fun e => (e.1, e.2.field)).map Prod.fst).Nodup := by
    rw [List.map_map]
    exact fields_nodup p
  have hlengths : ∀ e ∈ p.fields, (if e.1 = "remaining_lengths" then (e.1, asList e.2.field)
      else (e.1, e.2.field)) = (e.1, e.2.py) := by
    intro e he
    simp only [Point.fields, List.mem_cons, List.not_mem_nil, or_false] at he
    rcases he with rfl | rfl | rfl | rfl | rfl | rfl | rfl | rfl | rfl | rfl | rfl | rfl | rfl |
      rfl | rfl | rfl <;> rfl
  have hdeleted : (p.fields.filter fun e => decide (∀ d ∈ extendedDefaults, d.1 = e.1 →
      e.2.field.eq d.2.field = false)) = p.asDict := by
    apply List.filter_congr
    intro e he
    apply decide_eq_decide.2
    have hdefaults : (extendedDefaults.map Prod.fst).Nodup := by decide
    constructor
    · intro hall hlookup
      obtain ⟨d, hd, hkey, hvalue⟩ : ∃ d ∈ extendedDefaults, d.1 = e.1 ∧ d.2 = e.2 := by
        obtain ⟨l, l', heq, -⟩ := List.lookup_eq_some_iff.1 hlookup
        exact ⟨(e.1, e.2), by rw [heq]; simp, rfl, rfl⟩
      have hfalse := hall d hd hkey
      have hsame := sameType_of_mem he (extendedDefaults_subset hd) hkey.symm
      rw [hsame.eq_field.2 hvalue.symm] at hfalse
      cases hfalse
    · intro hlookup d hd hkey
      have hsame := sameType_of_mem he (extendedDefaults_subset hd) hkey.symm
      apply Bool.eq_false_of_not_eq_true
      intro htrue
      rw [← hkey, hsame.eq_field.1 htrue] at hlookup
      exact hlookup (lookup_of_mem hdefaults hd)
  unfold Point.toDict
  simp only
  rw [deleteDefaults_eq_filter _ _ hkeys, List.filter_map, List.map_map]
  simp only [Function.comp_def]
  rw [hdeleted]
  apply List.map_congr_left
  intro e he
  exact hlengths e (List.mem_of_mem_filter he)

/-! ## Points that are written alike -/

theorem asDict_nodup (p : Point) : (p.asDict.map Prod.fst).Nodup :=
  (fields_nodup p).sublist (List.filter_sublist.map _)

/-- An item of one record is in the other when what is written is equal. -/
theorem mem_asDict_of_within {p p' : Point} (h : Py.within p.toDict p'.toDict = true)
    {e : String × Value} (he : e ∈ p.asDict) : e ∈ p'.asDict := by
  rw [toDict_eq, toDict_eq, within_iff] at h
  obtain ⟨w, hw, heq⟩ := h (e.1, e.2.py) (List.mem_map_of_mem he)
  rw [lookup_map_snd] at hw
  obtain ⟨v, hv, rfl⟩ := Option.map_eq_some_iff.1 hw
  obtain ⟨l, l', hl, -⟩ := List.lookup_eq_some_iff.1 hv
  have hmem : (e.1, v) ∈ p'.asDict := by rw [hl]; simp
  have hsame : e.2.SameType v :=
    sameType_of_mem (List.mem_of_mem_filter he) (List.mem_of_mem_filter hmem) rfl
  have hvalue : e.2 = v := hsame.eq_py.1 heq
  rw [← hvalue] at hmem
  exact hmem

/-- **No two points are written alike**, not even to `==`. -/
theorem toDict_injective {p p' : Point}
    (h : (Py.dict p.toDict).eq (.dict p'.toDict) = true) : p = p' := by
  rw [Py.eq, Bool.and_eq_true, beq_iff_eq] at h
  obtain ⟨hlength, hwithin⟩ := h
  rw [toDict_eq, toDict_eq, List.length_map, List.length_map] at hlength
  have hsub : p.asDict ⊆ p'.asDict := fun e he => mem_asDict_of_within hwithin he
  have hperm : p.asDict.Perm p'.asDict :=
    ((asDict_nodup p).of_map.subperm hsub).perm_of_length_le hlength.ge
  apply eq_of_lookup_asDict
  intro k
  cases hk : p.asDict.lookup k with
  | some v =>
    obtain ⟨l, l', hl, -⟩ := List.lookup_eq_some_iff.1 hk
    have hmem : (k, v) ∈ p.asDict := by rw [hl]; simp
    exact (lookup_of_mem (asDict_nodup p') (hperm.subset hmem)).symm
  | none =>
    rw [List.lookup_eq_none_iff] at hk
    symm
    rw [List.lookup_eq_none_iff]
    intro e he
    exact hk e (hperm.symm.subset he)

theorem stored_py (v : Value) : Stored v.py := by
  cases v with
  | int n => exact .int n
  | str s => exact .str s
  | bool b => exact .bool b
  | ints ns =>
    apply Stored.list
    intro x hx
    obtain ⟨n, -, rfl⟩ := List.mem_map.1 hx
    exact .int n

theorem stored_record {es : List (String × Value)} (h : (es.map Prod.fst).Nodup) :
    Stored (.dict (es.map fun e => (e.1, e.2.py))) := by
  apply Stored.dict
  · rw [List.map_map]
    exact h
  · intro e he
    obtain ⟨e', -, rfl⟩ := List.mem_map.1 he
    exact stored_py e'.2

theorem stored_toDict (p : Point) : Stored (.dict p.toDict) := by
  rw [toDict_eq]
  exact stored_record (asDict_nodup p)

/-! ## What is written -/

/-- `profile.__dict__`. -/
def Profile.toDict (p : Profile) : List (String × Py) :=
  [("name", .str p.name), ("warmup_s", .float p.warmupS), ("measure_s", .float p.measureS),
    ("drain_s", .float p.drainS), ("runs", .int p.runs), ("comparable", .bool p.comparable)]

/-- The manifest as a dictionary, with the values of `V` as `encode` writes them. -/
def Manifest.toDict {V : Type} (encode : V → Py) (m : Manifest V) : List (String × Py) :=
  [("schema", .str "mqtt-client-bench/2"), ("campaign", .str m.campaign),
    ("started_at", .str m.startedAt), ("profile", .dict m.profile.toDict),
    ("points", .list (m.points.map fun es => .dict (es.map fun e => (e.1, e.2.py)))),
    ("clients", .dict (m.clients.map fun c => (c.1, .str c.2))),
    ("runs_per_point", .int m.runsPerPoint), ("sessions", .list (m.sessions.map encode))] ++
  (Frozen.all.filterMap fun f => (m.frozen f).map fun v => (f.name, encode v)) ++
  (m.finishedAt.map fun now => ("finished_at", Py.str now)).toList

/-! ## The program -/

/-- Why a campaign is not resumed. -/
inductive ResumeError
  | noManifest
  | unknownProfile (name : String)
  | pointChanged (name : String)
  /-- A key is missing, or of a type that the program does not write. -/
  | malformed
  deriving DecidableEq

/-- The texts of the errors; `repr` is Python's, of a string. -/
def ResumeError.message (root : String) (repr : String → String) : ResumeError → String
  | .noManifest => root ++ " has no manifest.json: nothing to resume"
  | .unknownProfile name => root ++ ": unknown profile " ++ repr name
  | .pointChanged name => root ++ ": point " ++ repr name ++
    " changed in the catalogue since the campaign started"
  | .malformed => root ++ ": malformed manifest"

/-- `v[key]`. -/
def item (v : Py) (key : String) : Except ResumeError Py :=
  match v with
  | .dict es =>
    match es.lookup key with
    | some w => .ok w
    | none => .error .malformed
  | _ => .error .malformed

/-- A string. -/
def asStr : Py → Except ResumeError String
  | .str s => .ok s
  | _ => .error .malformed

/-- `int(v)`, of an integer. -/
def asInt : Py → Except ResumeError ℤ
  | .int n => .ok n
  | _ => .error .malformed

/-- The items of a list. -/
def asItems : Py → Except ResumeError (List Py)
  | .list xs => .ok xs
  | _ => .error .malformed

/-- `list(v)`, of a dictionary. -/
def asKeys : Py → Except ResumeError (List String)
  | .dict es => .ok (es.map Prod.fst)
  | _ => .error .malformed

/-- `Profile(**v)`, with the types that its fields are declared with. -/
def asProfile (v : Py) : Except ResumeError Profile :=
  match v with
  | .dict es =>
    match es.lookup "name", es.lookup "warmup_s", es.lookup "measure_s", es.lookup "drain_s",
      es.lookup "runs", es.lookup "comparable" with
    | some (.str name), some (.float warmupS), some (.float measureS), some (.float drainS),
      some (.int runs), some (.bool comparable) =>
      if es.length = 6 then .ok { name, warmupS, measureS, drainS, runs, comparable }
      else .error .malformed
    | _, _, _, _, _, _ => .error .malformed
  | _ => .error .malformed

/-- `ALL_POINTS.get(name)`: of the points of one name the last is in the dictionary. -/
def allPoints (catalogue : List Point) (name : String) : Option Point :=
  catalogue.reverse.find? fun p => p.name = name

/-- The loop over the recorded points. -/
def resumePoints (catalogue : List Point) : List Py → Except ResumeError (List Point)
  | [] => .ok []
  | recorded :: rest => do
    let name ← asStr (← item recorded "name")
    match allPoints catalogue name with
    | some current =>
      if (Py.dict current.toDict).eq recorded then
        return current :: (← resumePoints catalogue rest)
      else throw (.pointChanged name)
    | none => throw (.pointChanged name)

/-- `resume_settings`, of the manifest when there is one. -/
def resumeSettings (catalogue : List Point) (manifest : Option Py) :
    Except ResumeError (Profile × List Point × List String × ℤ) := do
  match manifest with
  | none => throw .noManifest
  | some manifest =>
    let profile ← item manifest "profile"
    let name ← asStr (← item profile "name")
    if name ∉ profiles.map Profile.name then throw (.unknownProfile name)
    let points ← resumePoints catalogue (← asItems (← item manifest "points"))
    return (← asProfile profile, points, ← asKeys (← item manifest "clients"),
      ← asInt (← item manifest "runs_per_point"))

/-- `manifest['profile'].get('name')`, as a text. -/
def profileName (profile : Py) : String :=
  match item profile "name" with
  | .ok (.str name) => name
  | _ => "None"

/-- `_mismatches`. -/
def mismatchesOf (manifest : Py) (profile : Profile) (points : List Point)
    (clients : List String) (runs : ℤ) : Except ResumeError (List String) := do
  let recorded ← item manifest "profile"
  let recordedPoints ← item manifest "points"
  let recordedClients ← asKeys (← item manifest "clients")
  let recordedRuns ← asInt (← item manifest "runs_per_point")
  return (if recorded.eq (.dict profile.toDict) then []
      else ["profile " ++ profileName recorded ++ " != " ++ profile.name]) ++
    (if recordedPoints.eq (.list (points.map fun p => .dict p.toDict)) then []
      else ["points differ"]) ++
    (if recordedClients = clients then []
      else ["clients " ++ ", ".intercalate recordedClients ++ " != " ++
        ", ".intercalate clients]) ++
    if recordedRuns = runs then []
    else ["runs per point " ++ toString recordedRuns ++ " != " ++ toString runs]

/-! ## Reading back -/

theorem lookup_jsonItems (es : List (String × Py)) (k : String) :
    (Py.jsonItems es).lookup k = (es.lookup k).map Py.json := by
  rw [jsonItems_eq_map, lookup_map_snd]

/-- What JSON can hold is read back at its key. -/
theorem item_json {es : List (String × Py)} {k : String} {v : Py} (hv : es.lookup k = some v)
    (hstored : Stored v) : item (Py.dict es).json k = .ok v := by
  rw [Py.json, item, lookup_jsonItems, hv]
  exact congrArg _ hstored.json

theorem stored_profile (p : Profile) : Stored (.dict p.toDict) := by
  apply Stored.dict
  · simp only [Profile.toDict, List.map_cons, List.map_nil]
    decide
  · intro e he
    simp only [Profile.toDict, List.mem_cons, List.not_mem_nil, or_false] at he
    rcases he with rfl | rfl | rfl | rfl | rfl | rfl <;> constructor

theorem asProfile_toDict (p : Profile) : asProfile (.dict p.toDict) = .ok p := rfl

section Manifest

variable {V : Type} (encode : V → Py) (m : Manifest V)

theorem item_profile :
    item (Py.dict (m.toDict encode)).json "profile" = .ok (.dict m.profile.toDict) :=
  item_json rfl (stored_profile m.profile)

theorem item_clients : item (Py.dict (m.toDict encode)).json "clients" =
    .ok (.dict (m.clients.map fun c => (c.1, .str c.2))) := by
  apply item_json rfl
  apply Stored.dict
  · rw [List.map_map]
    exact m.clients_nodup
  · intro e he
    obtain ⟨c, -, rfl⟩ := List.mem_map.1 he
    exact .str c.2

theorem item_runs :
    item (Py.dict (m.toDict encode)).json "runs_per_point" = .ok (.int m.runsPerPoint) :=
  item_json rfl (.int m.runsPerPoint)

theorem item_points {points : List Point} (h : m.points = points.map Point.asDict) :
    item (Py.dict (m.toDict encode)).json "points" =
      .ok (.list (points.map fun p => .dict p.toDict)) := by
  have hpoints : (m.points.map fun es => Py.dict (es.map fun e => (e.1, e.2.py))) =
      points.map fun p => .dict p.toDict := by
    rw [h, List.map_map]
    exact List.map_congr_left fun p _ => congrArg Py.dict (toDict_eq p).symm
  rw [← hpoints]
  apply item_json rfl
  rw [hpoints]
  apply Stored.list
  intro x hx
  obtain ⟨p, -, rfl⟩ := List.mem_map.1 hx
  exact stored_toDict p

end Manifest

theorem item_name (p : Point) : item (.dict p.toDict) "name" = .ok (.str p.name) := by
  have hname : p.asDict.lookup "name" = some (.str p.name) := by
    have hread := lookup_asDict (p := p) (k := "name") rfl
    rw [show extendedDefaults.lookup "name" = none by decide, Option.or_none] at hread
    exact hread
  rw [item, toDict_eq, lookup_map_snd, hname]
  rfl

/-- A point is read back while the catalogue has it, and refused otherwise. -/
theorem resumePoints_cons (catalogue : List Point) (p : Point) (rest : List Py) :
    resumePoints catalogue (.dict p.toDict :: rest) =
      if allPoints catalogue p.name = some p then
        (p :: ·) <$> resumePoints catalogue rest
      else .error (.pointChanged p.name) := by
  rw [resumePoints, item_name]
  simp only [bind, Except.bind, asStr]
  cases hc : allPoints catalogue p.name with
  | none => rfl
  | some current =>
    simp only [Option.some.injEq]
    by_cases hsame : current = p
    · rw [if_pos hsame, hsame, if_pos (stored_toDict p).eq_self]
      rfl
    · rw [if_neg hsame, if_neg fun heq => hsame (toDict_injective heq)]
      rfl

theorem resumePoints_ok {catalogue points : List Point}
    (h : ∀ p ∈ points, allPoints catalogue p.name = some p) :
    resumePoints catalogue (points.map fun p => .dict p.toDict) = .ok points := by
  induction points with
  | nil => rfl
  | cons p points ih =>
    obtain ⟨hp, hpoints⟩ := List.forall_mem_cons.1 h
    rw [List.map_cons, resumePoints_cons, if_pos hp, ih hpoints]
    rfl

theorem resumePoints_error {catalogue points : List Point}
    (h : ∃ p ∈ points, allPoints catalogue p.name ≠ some p) :
    ∃ name, resumePoints catalogue (points.map fun p => .dict p.toDict) =
      .error (.pointChanged name) := by
  induction points with
  | nil => simp at h
  | cons p points ih =>
    rw [List.map_cons, resumePoints_cons]
    by_cases hp : allPoints catalogue p.name = some p
    · obtain ⟨q, hq, hne⟩ := h
      have hrest : q ∈ points := (List.mem_cons.1 hq).resolve_left fun heq => hne (heq ▸ hp)
      obtain ⟨name, hname⟩ := ih ⟨q, hrest, hne⟩
      rw [if_pos hp, hname]
      exact ⟨name, rfl⟩
    · rw [if_neg hp]
      exact ⟨p.name, rfl⟩

/-! ## What resuming returns -/

/-- Every manifest that a call writes records the settings of the call. -/
theorem runCampaign_matches {V : Type} [DecidableEq V] {refusals : Refusals} {c : Call V}
    {dir : Dir V} {saves : List (Save V)} (h : runCampaign refusals c dir = .ok saves)
    {m : Manifest V} (hm : .manifest m ∈ saves) : ∃ frozen, m.Matches (c.settings frozen) := by
  obtain ⟨frozen, halong, -⟩ := runCampaign_along refusals c h
  refine ⟨frozen, ?_⟩
  have hall := halong.forall (R := fun save => ∀ m, save = .manifest m →
    m.Matches (c.settings frozen)) ?_
  · exact hall _ hm m rfl
  · rintro dir save hs m rfl
    obtain ⟨m', hm', hmatch, -⟩ := hs.matches
    obtain rfl := Option.some.inj hm'
    exact hmatch

/-- **Resuming reads back exactly what was started.**  No two points are written alike.  The
manifest that a call writes, after a round trip through JSON, does not mismatch the call's
settings; it gives them back while the catalogue still has each of its points, and is
refused otherwise. -/
theorem resumeSettings_written {V : Type} [DecidableEq V] (encode : V → Py) (refusals : Refusals)
    (c : Call V) (dir : Dir V) (saves : List (Save V)) (m : Manifest V)
    (hprofile : c.profile.name ∈ profiles.map Profile.name) (hclients : c.clients.Nodup)
    (hsaves : runCampaign refusals c dir = .ok saves) (hm : .manifest m ∈ saves) :
    let manifest := (Py.dict (m.toDict encode)).json
    Function.Injective Point.toDict ∧
    mismatchesOf manifest c.profile c.points c.clients c.runsPerPoint = .ok [] ∧
      ∀ catalogue : List Point,
        ((∀ p ∈ c.points, allPoints catalogue p.name = some p) →
          resumeSettings catalogue (some manifest) =
            .ok (c.profile, c.points, c.clients, c.runsPerPoint)) ∧
        ((∃ p ∈ c.points, allPoints catalogue p.name ≠ some p) →
          ∃ name, resumeSettings catalogue (some manifest) = .error (.pointChanged name)) := by
  obtain ⟨frozen, hmatch⟩ := runCampaign_matches hsaves hm
  have hkeys : (m.clients.map fun e => (e.1, Py.str e.2)).map Prod.fst = c.clients := by
    rw [List.map_map]
    exact hmatch.clients.trans (eraseDups_of_nodup hclients)
  have hpoints : Stored (.list (c.points.map fun p => .dict p.toDict)) := by
    apply Stored.list
    intro x hx
    obtain ⟨p, -, rfl⟩ := List.mem_map.1 hx
    exact stored_toDict p
  have hread := item_points encode m hmatch.points
  refine ⟨?_, ?_, ?_⟩
  · intro p p' h
    apply toDict_injective
    rw [h]
    exact (stored_toDict p').eq_self
  · unfold mismatchesOf
    simp only [item_profile, hread, item_clients, item_runs, bind, Except.bind, asKeys, asInt,
      hkeys, hmatch.profile, hmatch.runs]
    simp [Call.settings, (stored_profile c.profile).eq_self, hpoints.eq_self]
    rfl
  · intro catalogue
    have hresume : resumeSettings catalogue (some (Py.dict (m.toDict encode)).json) =
        (fun points => (c.profile, points, c.clients, c.runsPerPoint)) <$>
          resumePoints catalogue (c.points.map fun p => .dict p.toDict) := by
      have hname : item (.dict c.profile.toDict) "name" = .ok (.str c.profile.name) := rfl
      have hknown : ¬ c.profile.name ∉ profiles.map Profile.name := not_not.2 hprofile
      unfold resumeSettings
      simp only [item_profile, hread, item_clients, item_runs, bind, Except.bind, asKeys, asInt,
        asItems, asStr, hkeys, hmatch.profile, hmatch.runs, Call.settings, hname, if_neg hknown,
        asProfile_toDict]
      cases resumePoints catalogue (c.points.map fun p => .dict p.toDict) <;> rfl
    rw [hresume]
    constructor
    · intro hall
      rw [resumePoints_ok hall]
      rfl
    · intro hsome
      obtain ⟨name, hname⟩ := resumePoints_error hsome
      rw [hname]
      exact ⟨name, rfl⟩

/-- Two clients at a point with a list of lengths. -/
def boundaryCall : Call Unit where
  name := "20240101T000000Z"
  points := [{ name := "pub_rl_boundaries", kind := .pub, question := "", qos := 1, rate := 60
               remainingLengths := [127, 128] }]
  clients := ["paho", "gmqtt"]
  profile := { name := "smoke", warmupS := 1 / 2, measureS := 2, drainS := 1, runs := 1
               comparable := false }
  runs := some 2
  frozen := .ok fun _ => ()
  version _ := "1.0"
  session := ()
  outcome _ _ := ⟨.valid, none⟩
  startedAt := ""
  finishedAt := ""

theorem resumeSettings_written_example : let m := newManifest boundaryCall fun _ => ()
    let manifest := (Py.dict (m.toDict fun _ => .none)).json
    Function.Injective Point.toDict ∧
    mismatchesOf manifest boundaryCall.profile boundaryCall.points boundaryCall.clients 2 =
        .ok [] ∧
      ∀ catalogue : List Point,
        ((∀ p ∈ boundaryCall.points, allPoints catalogue p.name = some p) →
          resumeSettings catalogue (some manifest) =
            .ok (boundaryCall.profile, boundaryCall.points, boundaryCall.clients, 2)) ∧
        ((∃ p ∈ boundaryCall.points, allPoints catalogue p.name ≠ some p) →
          ∃ name, resumeSettings catalogue (some manifest) = .error (.pointChanged name)) :=
  resumeSettings_written (fun _ => .none) (fun _ _ => []) boundaryCall ⟨none, ∅⟩ _ _
    (by decide) (by decide) rfl
    (List.mem_append_left _ (List.mem_append_left _ (List.mem_singleton_self _)))

end Bench
