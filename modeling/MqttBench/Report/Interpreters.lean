import MqttBench.Report.Cells

/-!
# The interpreters of a report

A cell cannot combine different runtimes.  `load_campaign` collects the GIL states of each cell
and the builds of all runs, as texts, and compares them with the manifest.

* `Build`, `Mixed` — what the checks are for.
* `noteOf_eq` — what the loop over the runs finds.
* `raises_iff_mixed` — **the checks raise exactly on a mixture.**
* `combines_no_interpreters` — and so a loaded campaign has none.
-/

namespace Report.Files

open PyData Fallible Grouping

variable {V : Type}

/-! ## What is claimed -/

/-- A build: the identity without the GIL state, or the bare version of an older record. -/
inductive Build
  | identity (fields : Py)
  | version (python : String)

/-- The same but for the order of the keys; one of each kind is different. -/
def Build.Same : Build → Build → Prop
  | .identity v, .identity w => v.sorted = w.sorted
  | .version s, .version t => s = t
  | _, _ => False

namespace RunDoc

def build (r : RunDoc V) : Option Build :=
  match r.identity with
  | some identity => some (.identity (withoutGil identity))
  | none => r.python.map .version

/-- The GIL state that a run records. -/
def gil (r : RunDoc V) : Option Py := r.identity.bind fun identity => identity.lookup "gil_enabled"

/-- An identity is what JSON can hold, its GIL state is a truth value, and a bare version does
not begin like an object. -/
structure WellFormed (r : RunDoc V) : Prop where
  identity : ∀ es, r.identity = some es → Stored (.dict es)
  gil : ∀ v, r.gil = some v → ∃ b, v = .bool b
  python : ∀ s, r.python = some s → s.toList.head? ≠ some '{'

end RunDoc

namespace Directory

/-- Each run with the client of its file. -/
def runs (dir : Directory V) : List (Option String × RunDoc V) :=
  dir.docs.flatMap fun d => d.runList.map fun r => (d.client, r)

structure WellFormed (dir : Directory V) : Prop where
  files : ∀ f ∈ dir.files, ∃ doc client, f.2 = .ok doc ∧ doc.client = some client
  clients : (dir.docs.map ClientDoc.client).Nodup
  runs : ∀ x ∈ dir.runs, x.2.WellFormed
  manifest : ∀ es, dir.manifest.identity = some es → Stored (.dict es)

/-- Two runs of one client and point record different GIL states. -/
def GilMixed (dir : Directory V) : Prop :=
  ∃ x ∈ dir.runs, ∃ y ∈ dir.runs, x.1 = y.1 ∧ x.2.pointName = y.2.pointName ∧
    ∃ v w, x.2.gil = some v ∧ y.2.gil = some w ∧ v ≠ w

/-- Two runs record different builds. -/
def BuildMixed (dir : Directory V) : Prop :=
  ∃ x ∈ dir.runs, ∃ y ∈ dir.runs, ∃ b b', x.2.build = some b ∧ y.2.build = some b' ∧ ¬ b.Same b'

/-- The manifest records a runtime, and a run another build. -/
def ManifestDiffers (dir : Directory V) : Prop :=
  ∃ recorded, dir.manifest.identity = some recorded ∧ ∃ x ∈ dir.runs, ∃ b, x.2.build = some b ∧
    ¬ (Build.identity (withoutGil recorded)).Same b

def Mixed (dir : Directory V) : Prop := dir.GilMixed ∨ dir.BuildMixed ∨ dir.ManifestDiffers

end Directory

/-! ## The texts of builds -/

def Build.text (F : FloatText) : Build → String
  | .identity fields => dumps F fields
  | .version python => python

/-- A build as a run can record it. -/
def Build.WellFormed : Build → Prop
  | .identity fields => ∃ es, fields = .dict es
  | .version python => python.toList.head? ≠ some '{'

theorem RunDoc.WellFormed.build {r : RunDoc V} (h : r.WellFormed) {b : Build}
    (hb : r.build = some b) : b.WellFormed := by
  unfold RunDoc.build at hb
  split at hb
  · obtain rfl := Option.some.inj hb
    exact ⟨_, rfl⟩
  · obtain ⟨s, hs, rfl⟩ := Option.map_eq_some_iff.1 hb
    exact h.python s hs

/-- **Two builds have the same text when they are the same.** -/
theorem Build.text_eq_iff {F : FloatText} {b b' : Build} (hb : b.WellFormed) (hb' : b'.WellFormed) :
    b.text F = b'.text F ↔ b.Same b' := by
  have hkinds : ∀ es s, s.toList.head? ≠ some '{' → dumps F (.dict es) ≠ s := by
    intro es s hs heq
    exact hs (heq ▸ toList_dumps_dict F es)
  cases b with
  | identity v =>
    cases b' with
    | identity w => exact dumps_eq_iff F
    | version t =>
      obtain ⟨es, rfl⟩ := hb
      exact iff_of_false (hkinds es t hb') id
  | version s =>
    cases b' with
    | identity w =>
      obtain ⟨es, rfl⟩ := hb'
      exact iff_of_false (fun h => hkinds es s hb h.symm) id
    | version t => exact Iff.rfl

/-! ## What the loop finds -/

/-- The note of a run. -/
def noteFor (F : FloatText) (x : String × RunDoc V) : Note :=
  ⟨x.2.gil.map fun v => ((x.1, x.2.pointName), v), x.2.build.map (Build.text F)⟩

theorem buildOf_eq (F : FloatText) (r : RunDoc V) : buildOf F r = r.build.map (Build.text F) := by
  unfold buildOf RunDoc.build
  cases r.identity with
  | none =>
    rw [Option.map_map]
    exact Option.map_id'.symm
  | some identity => rfl

theorem gilOf_eq {x : String × RunDoc V} (h : ∀ v, x.2.gil = some v → ∃ b, v = .bool b) :
    gilOf x = .ok (x.2.gil.map fun v => ((x.1, x.2.pointName), v)) := by
  unfold gilOf
  change ∀ v, (x.2.identity.bind fun identity => identity.lookup "gil_enabled") = some v → _ at h
  unfold RunDoc.gil
  split
  · next hnone => rw [hnone]; rfl
  · next v hsome =>
    obtain ⟨b, rfl⟩ := h v hsome
    rw [hsome]
    rfl

theorem noteOf_eq (F : FloatText) {x : String × RunDoc V} (h : x.2.WellFormed) :
    noteOf F x = .ok (noteFor F x) := by
  rw [noteOf, gilOf_eq h.gil, buildOf_eq]
  rfl

theorem bool_eq_iff (a b : Bool) : (Py.bool a).eq (.bool b) = true ↔ a = b := by
  cases a <;> cases b <;> simp [Py.eq, Py.number]

theorem addState_bool (seen : List Bool) (b : Bool) :
    addState (seen.map .bool) (.bool b) = (addNew seen b).map .bool := by
  have hany : (seen.map Py.bool).any (fun u => u.eq (.bool b)) = true ↔ b ∈ seen := by
    simp [List.any_eq_true, bool_eq_iff]
  rw [addState, addNew]
  by_cases h : b ∈ seen
  · rw [if_pos (hany.2 h), if_pos h]
  · rw [if_neg (mt hany.1 h), if_neg h, List.map_append]
    rfl

/-- The states of a cell, when they are truth values. -/
theorem foldl_addState {κ : Type} (xs : List (κ × Py)) (h : ∀ x ∈ xs, ∃ b, x.2 = .bool b) :
    ∃ bs : List Bool, xs.map Prod.snd = bs.map .bool ∧
      xs.foldl (fun states x => addState states x.2) [] = (distinct bs).map .bool := by
  have hall : ∀ seen : List Bool, ∃ bs : List Bool, xs.map Prod.snd = bs.map .bool ∧
      xs.foldl (fun states x => addState states x.2) (seen.map .bool) =
        (bs.foldl addNew seen).map .bool := by
    induction xs with
    | nil => exact fun seen => ⟨[], rfl, rfl⟩
    | cons x xs ih =>
      obtain ⟨⟨b, hb⟩, hrest⟩ := List.forall_mem_cons.1 h
      intro seen
      obtain ⟨bs, hbs, hfold⟩ := ih hrest (addNew seen b)
      refine ⟨b :: bs, List.cons_eq_cons.2 ⟨hb, hbs⟩, ?_⟩
      rw [List.foldl_cons, List.foldl_cons, ← hfold, hb, addState_bool]
  exact hall []

/-- A cell has two states when two of its runs record different ones. -/
theorem one_lt_states_iff {κ : Type} [DecidableEq κ] {xs : List (κ × Py)}
    (h : ∀ x ∈ xs, ∃ b, x.2 = .bool b) :
    (∃ x ∈ Dicts.gather (fun states x => addState states x.2) [] Prod.fst xs, 1 < x.2.length) ↔
      ∃ x ∈ xs, ∃ y ∈ xs, x.1 = y.1 ∧ x.2 ≠ y.2 := by
  -- The states under one key.
  have hkey : ∀ k, 1 < ((xs.filter fun x => x.1 = k).foldl
      (fun states x => addState states x.2) []).length ↔
        ∃ x ∈ xs, ∃ y ∈ xs, x.1 = k ∧ y.1 = k ∧ x.2 ≠ y.2 := by
    intro k
    obtain ⟨bs, hbs, hfold⟩ := foldl_addState (xs.filter fun x => x.1 = k) fun x hx =>
      h x (List.mem_of_mem_filter hx)
    have hmem : ∀ b, b ∈ bs ↔ ∃ x ∈ xs, x.1 = k ∧ x.2 = .bool b := by
      intro b
      have hmap : b ∈ bs ↔ Py.bool b ∈ bs.map Py.bool := by simp
      rw [hmap, ← hbs, List.mem_map]
      simp [and_assoc]
    rw [hfold, List.length_map, one_lt_length_distinct]
    constructor
    · rintro ⟨b, hb, b', hb', hne⟩
      obtain ⟨x, hx, hxk, hxb⟩ := (hmem b).1 hb
      obtain ⟨y, hy, hyk, hyb⟩ := (hmem b').1 hb'
      refine ⟨x, hx, y, hy, hxk, hyk, ?_⟩
      rw [hxb, hyb]
      exact fun heq => hne (Py.bool.inj heq)
    · rintro ⟨x, hx, y, hy, hxk, hyk, hne⟩
      obtain ⟨b, hb⟩ := h x hx
      obtain ⟨b', hb'⟩ := h y hy
      refine ⟨b, (hmem b).2 ⟨x, hx, hxk, hb⟩, b', (hmem b').2 ⟨y, hy, hyk, hb'⟩, ?_⟩
      rintro rfl
      exact hne (hb.trans hb'.symm)
  constructor
  · rintro ⟨e, he, hlt⟩
    have hget := Dicts.get_of_mem (Dicts.nodup_keys_gather _ _ _ _) (k := e.1) (v := e.2) he
    rw [Dicts.get_gather] at hget
    split at hget
    · rw [← Option.some.inj hget] at hlt
      obtain ⟨x, hx, y, hy, hxk, hyk, hne⟩ := (hkey _).1 hlt
      exact ⟨x, hx, y, hy, hxk.trans hyk.symm, hne⟩
    · cases hget
  · rintro ⟨x, hx, y, hy, hxy, hne⟩
    have hlt := (hkey x.1).2 ⟨x, hx, y, hy, rfl, hxy.symm, hne⟩
    have hget := Dicts.get_gather (fun states x => addState states x.2) [] Prod.fst xs x.1
    rw [if_pos ⟨x, hx, rfl⟩] at hget
    exact ⟨_, Dicts.mem_of_get hget, hlt⟩

/-! ## The checks -/

/-- What the three checks look at. -/
def Refuses (F : FloatText) (dir : Directory V) (notes : List Note) : Prop :=
  (∃ x ∈ gilStates notes, 1 < x.2.length) ∨ 1 < (builds notes).length ∨
    ∃ recorded, dir.manifest.identity = some recorded ∧
      ∃ b ∈ builds notes, b ≠ dumps F (withoutGil recorded)

theorem checkRuntimes_eq (F : FloatText) (dir : Directory V) (notes : List Note) :
    Refuses F dir notes ∧ (∃ message, checkRuntimes F dir notes = .error (.valueError message)) ∨
      ¬ Refuses F dir notes ∧ checkRuntimes F dir notes = .ok () := by
  unfold checkRuntimes
  split
  · next cell states hfind =>
    have hmem := List.mem_of_find?_eq_some hfind
    have hlt : 1 < states.length := by simpa using List.find?_some hfind
    exact .inl ⟨.inl ⟨_, hmem, hlt⟩, _, rfl⟩
  · next hfind =>
    have hstates : ¬ ∃ x ∈ gilStates notes, 1 < x.2.length := by
      rintro ⟨x, hx, hlt⟩
      simpa [hlt] using List.find?_eq_none.1 hfind x hx
    split
    · next hbuilds => exact .inl ⟨.inr (.inl hbuilds), _, rfl⟩
    · next hbuilds =>
      split
      · next hnone =>
        refine .inr ⟨?_, rfl⟩
        rintro (h | h | ⟨recorded, hrecorded, -⟩)
        · exact hstates h
        · exact hbuilds h
        · cases hnone.symm.trans hrecorded
      · next recorded hrecorded =>
        -- There is one build at most, and the set differs from the manifest's when it is another.
        have hother : builds notes ≠ [] ∧ builds notes ≠ [dumps F (withoutGil recorded)] ↔
            ∃ b ∈ builds notes, b ≠ dumps F (withoutGil recorded) := by
          generalize builds notes = found at hbuilds
          match found with
          | [] => simp
          | [b] => simp
          | _ :: _ :: _ => simp at hbuilds
        split
        · next h => exact .inl ⟨.inr (.inr ⟨recorded, hrecorded, hother.1 h⟩), _, rfl⟩
        · next h =>
          refine .inr ⟨?_, rfl⟩
          rintro (hs | hb | ⟨recorded', hrecorded', hdiffers⟩)
          · exact hstates hs
          · exact hbuilds hb
          · obtain rfl := Option.some.inj (hrecorded.symm.trans hrecorded')
            exact h (hother.2 hdiffers)

section

variable {F : FloatText} {dir : Directory V} {docs : Docs V}

/-- The runs of the files are the tagged ones. -/
theorem ReadFrom.mem_runs (h : ReadFrom dir docs) {x : Option String × RunDoc V} :
    x ∈ dir.runs ↔ ∃ y ∈ taggedRuns docs, (some y.1, y.2) = x := by
  have hsame : (docs.map Prod.snd).flatMap (fun d => d.runList.map fun r => (d.client, r)) =
      (taggedRuns docs).map fun y => (some y.1, y.2) := by
    rw [taggedRuns, List.map_flatMap, List.flatMap_map]
    refine List.flatMap_congr fun d hd => ?_
    rw [h.client d hd, List.map_map]
    rfl
  rw [Directory.runs, ← (h.perm.flatMap_right _).mem_iff, hsame, List.mem_map]

theorem ReadFrom.wellFormed (h : ReadFrom dir docs) (hdir : dir.WellFormed)
    {x : String × RunDoc V} (hx : x ∈ taggedRuns docs) : x.2.WellFormed :=
  hdir.runs (some x.1, x.2) (h.mem_runs.2 ⟨x, hx, rfl⟩)

theorem mem_gils {xs : List (String × RunDoc V)} {e : (String × Option String) × Py} :
    e ∈ (xs.map (noteFor F)).filterMap Note.gil ↔
      ∃ x ∈ xs, ∃ v, x.2.gil = some v ∧ ((x.1, x.2.pointName), v) = e := by
  simp [noteFor]

theorem mem_builds {xs : List (String × RunDoc V)} {s : String} :
    s ∈ (xs.map (noteFor F)).filterMap Note.build ↔
      ∃ x ∈ xs, ∃ b, x.2.build = some b ∧ b.text F = s := by
  simp [noteFor]

theorem states_iff_gilMixed (hdir : dir.WellFormed) (h : ReadFrom dir docs) :
    (∃ x ∈ gilStates ((taggedRuns docs).map (noteFor F)), 1 < x.2.length) ↔ dir.GilMixed := by
  have hbool : ∀ e ∈ ((taggedRuns docs).map (noteFor F)).filterMap Note.gil,
      ∃ b, e.2 = .bool b := by
    intro e he
    obtain ⟨x, hx, v, hv, rfl⟩ := mem_gils.1 he
    exact (h.wellFormed hdir hx).gil v hv
  rw [gilStates, one_lt_states_iff hbool]
  constructor
  · rintro ⟨e, he, e', he', hcell, hne⟩
    obtain ⟨x, hx, v, hv, rfl⟩ := mem_gils.1 he
    obtain ⟨y, hy, w, hw, rfl⟩ := mem_gils.1 he'
    obtain ⟨hclient, hpoint⟩ := Prod.ext_iff.1 hcell
    exact ⟨_, h.mem_runs.2 ⟨x, hx, rfl⟩, _, h.mem_runs.2 ⟨y, hy, rfl⟩, congrArg some hclient, hpoint,
      v, w, hv, hw, hne⟩
  · rintro ⟨_, hx, _, hy, hclient, hpoint, v, w, hv, hw, hne⟩
    obtain ⟨x, hxs, rfl⟩ := h.mem_runs.1 hx
    obtain ⟨y, hys, rfl⟩ := h.mem_runs.1 hy
    exact ⟨_, mem_gils.2 ⟨x, hxs, v, hv, rfl⟩, _, mem_gils.2 ⟨y, hys, w, hw, rfl⟩,
      Prod.ext (Option.some.inj hclient) hpoint, hne⟩

theorem builds_iff_buildMixed (hdir : dir.WellFormed) (h : ReadFrom dir docs) :
    1 < (builds ((taggedRuns docs).map (noteFor F))).length ↔ dir.BuildMixed := by
  rw [builds, one_lt_length_distinct]
  constructor
  · rintro ⟨s, hs, t, ht, hne⟩
    obtain ⟨x, hx, b, hb, rfl⟩ := mem_builds.1 hs
    obtain ⟨y, hy, b', hb', rfl⟩ := mem_builds.1 ht
    refine ⟨_, h.mem_runs.2 ⟨x, hx, rfl⟩, _, h.mem_runs.2 ⟨y, hy, rfl⟩, b, b', hb, hb', ?_⟩
    rwa [← Build.text_eq_iff ((h.wellFormed hdir hx).build hb) ((h.wellFormed hdir hy).build hb')]
  · rintro ⟨_, hx, _, hy, b, b', hb, hb', hne⟩
    obtain ⟨x, hxs, rfl⟩ := h.mem_runs.1 hx
    obtain ⟨y, hys, rfl⟩ := h.mem_runs.1 hy
    refine ⟨_, mem_builds.2 ⟨x, hxs, b, hb, rfl⟩, _, mem_builds.2 ⟨y, hys, b', hb', rfl⟩, ?_⟩
    rwa [Ne, Build.text_eq_iff ((h.wellFormed hdir hxs).build hb)
      ((h.wellFormed hdir hys).build hb')]

theorem recorded_iff_manifestDiffers (hdir : dir.WellFormed) (h : ReadFrom dir docs) :
    (∃ recorded, dir.manifest.identity = some recorded ∧
      ∃ b ∈ builds ((taggedRuns docs).map (noteFor F)), b ≠ dumps F (withoutGil recorded)) ↔
        dir.ManifestDiffers := by
  refine exists_congr fun recorded => and_congr_right fun _ => ?_
  have hrecorded : (Build.identity (withoutGil recorded)).WellFormed := ⟨_, rfl⟩
  constructor
  · rintro ⟨s, hs, hne⟩
    obtain ⟨x, hx, b, hb, rfl⟩ := mem_builds.1 (mem_distinct.1 hs)
    refine ⟨_, h.mem_runs.2 ⟨x, hx, rfl⟩, b, hb, ?_⟩
    rw [← Build.text_eq_iff hrecorded ((h.wellFormed hdir hx).build hb)]
    exact Ne.symm hne
  · rintro ⟨_, hx, b, hb, hne⟩
    obtain ⟨x, hxs, rfl⟩ := h.mem_runs.1 hx
    refine ⟨_, mem_distinct.2 (mem_builds.2 ⟨x, hxs, b, hb, rfl⟩), Ne.symm ?_⟩
    rwa [← Build.text_eq_iff (F := F) hrecorded ((h.wellFormed hdir hxs).build hb)] at hne

/-- **The checks refuse exactly a mixture.** -/
theorem refuses_iff_mixed (hdir : dir.WellFormed) (h : ReadFrom dir docs) :
    Refuses F dir ((taggedRuns docs).map (noteFor F)) ↔ dir.Mixed :=
  or_congr (states_iff_gilMixed hdir h)
    (or_congr (builds_iff_buildMixed hdir h) (recorded_iff_manifestDiffers hdir h))

/-! ## Loading -/

/-- A well-formed directory can be read, up to the checks. -/
theorem Directory.WellFormed.reads (hdir : dir.WellFormed) (F : FloatText) :
    ∃ docs, readDocs dir.files = .ok docs ∧ ReadFrom dir docs ∧
      each (noteOf F) (taggedRuns docs) = .ok ((taggedRuns docs).map (noteFor F)) := by
  obtain ⟨docs, hdocs⟩ : ∃ docs, readDocs dir.files = .ok docs := by
    cases hread : readDocs dir.files with
    | ok docs => exact ⟨docs, rfl⟩
    | error e =>
      rcases bind_eq_error.1 hread with hfail | ⟨items, -, hnot⟩
      · obtain ⟨f, hf, hfail⟩ := mem_of_each_eq_error hfail
        obtain ⟨doc, client, hdoc, hclient⟩ := hdir.files f (List.mem_mergeSort.1 hf)
        rw [readDoc, hdoc] at hfail
        simp only [require, hclient, bind, Except.bind] at hfail
        cases hfail
      · cases hnot
  have hfrom := readDocs_eq_ok hdir.clients hdocs
  exact ⟨docs, hdocs, hfrom, each_of_forall fun x hx => noteOf_eq F (hfrom.wellFormed hdir hx)⟩

/-- All it raises is `KeyError`. -/
def KeyOnly {α : Type} (x : Except LoadError α) : Prop := ∀ e, x = .error e → ∃ key, e = .keyError key

theorem KeyOnly.bind {α β : Type} {x : Except LoadError α} {f : α → Except LoadError β}
    (hx : KeyOnly x) (hf : ∀ a, KeyOnly (f a)) : KeyOnly (x >>= f) := by
  intro e he
  rcases bind_eq_error.1 he with hfail | ⟨a, -, hfail⟩
  · exact hx e hfail
  · exact hf a e hfail

theorem keyOnly_pure {α : Type} (a : α) : KeyOnly (pure a) := nofun

theorem keyOnly_require {α : Type} (key : String) (o : Option α) : KeyOnly (require key o) := by
  cases o with
  | none => exact fun e he => ⟨key, (Except.error.inj he).symm⟩
  | some a => exact nofun

theorem keyOnly_each {α β : Type} {f : α → Except LoadError β} (hf : ∀ a, KeyOnly (f a))
    (xs : List α) : KeyOnly (each f xs) := by
  intro e he
  obtain ⟨x, -, hfail⟩ := mem_of_each_eq_error he
  exact hf x e hfail

theorem keyOnly_announce (points : List (PointDoc V)) (known : List String)
    (runs : List (RunDoc V)) : KeyOnly (announce points known runs) := by
  induction runs generalizing points known with
  | nil => exact keyOnly_pure _
  | cons r runs ih =>
    refine (keyOnly_require _ _).bind fun point => (keyOnly_require _ _).bind fun name => ?_
    split
    · exact ih _ _
    · exact ih _ _

theorem keyOnly_refused (name : String) (entries : List RefusalDoc) :
    KeyOnly (refused name entries) := by
  induction entries with
  | nil => exact keyOnly_pure _
  | cons u us ih =>
    refine (keyOnly_require _ _).bind fun point => ?_
    split
    · exact (keyOnly_require _ _).bind fun reasons => keyOnly_pure _
    · exact ih

theorem keyOnly_cellOf (docs : Docs V) (x : PointDoc V × String) : KeyOnly (cellOf docs x) :=
  (keyOnly_require _ _).bind fun _ => (keyOnly_refused _ _).bind fun _ => keyOnly_pure _

theorem keyOnly_assemble (dir : Directory V) (docs : Docs V) : KeyOnly (assemble dir docs) :=
  (keyOnly_each (fun _ => keyOnly_require _ _) _).bind fun _ => (keyOnly_announce _ _ _).bind
    fun _ => (keyOnly_each (keyOnly_cellOf docs) _).bind fun _ => keyOnly_pure _

/-- **`load_campaign` raises `ValueError` exactly on a mixture.** -/
theorem raises_iff_mixed (hdir : dir.WellFormed) :
    (∃ message, loadCampaign F dir = .error (.valueError message)) ↔ dir.Mixed := by
  obtain ⟨docs, hdocs, hfrom, hnotes⟩ := hdir.reads F
  rw [← refuses_iff_mixed (F := F) hdir hfrom, loadCampaign, hdocs]
  change (∃ message, each (noteOf F) (taggedRuns docs) >>= _ = _) ↔ _
  rw [hnotes]
  change (∃ message, checkRuntimes F dir _ >>= _ = _) ↔ _
  rcases checkRuntimes_eq F dir ((taggedRuns docs).map (noteFor F)) with
    ⟨hrefuses, message, hcheck⟩ | ⟨hpasses, hcheck⟩
  · rw [hcheck]
    exact iff_of_true ⟨message, rfl⟩ hrefuses
  · rw [hcheck]
    refine iff_of_false ?_ hpasses
    rintro ⟨message, hfail⟩
    obtain ⟨key, hnot⟩ := keyOnly_assemble dir docs _ hfail
    cases hnot

/-! ## A loaded campaign -/

/-- Two identities of one build, and of one GIL state, agree on what they share. -/
theorem agree_of_same {es fs : List (String × Py)} (hes : Stored (.dict es))
    (hfs : Stored (.dict fs)) (hsame : (withoutGil es).sorted = (withoutGil fs).sorted)
    (hgil : ∀ v w, es.lookup "gil_enabled" = some v → fs.lookup "gil_enabled" = some w → v = w)
    {k : String} {v w : Py} (hv : es.lookup k = some v) (hw : fs.lookup k = some w) :
    v.eq w = true := by
  by_cases hk : k = "gil_enabled"
  · subst hk
    rw [← hgil v w hv hw]
    exact (hes.of_lookup hv).eq_self
  · have hmem : (k, v) ∈ es.filter fun e => e.1 ≠ "gil_enabled" :=
      List.mem_filter.2 ⟨mem_of_lookup hv, by simpa using hk⟩
    obtain ⟨w', hw', hsorted⟩ := mem_of_sorted hsame hmem
    have hfound := lookup_of_mem hfs.keys_nodup (List.mem_of_mem_filter hw')
    obtain rfl := Option.some.inj (hw.symm.trans hfound)
    exact (hes.of_lookup hv).eq_of_sorted (hfs.of_lookup hw) hsorted

theorem mem_recordsOf {name client : String} {r : RunDoc V} :
    r ∈ dir.recordsOf name client ↔ (some client, r) ∈ dir.runs ∧ r.pointName = some name := by
  simp only [Directory.recordsOf, Directory.runs, List.mem_flatMap, List.mem_filter, List.mem_map,
    decide_eq_true_eq]
  constructor
  · rintro ⟨d, ⟨hd, hclient⟩, hr, hname⟩
    exact ⟨⟨d, hd, r, hr, by rw [hclient]⟩, hname⟩
  · rintro ⟨⟨d, hd, r', hr, heq⟩, hname⟩
    obtain ⟨hclient, rfl⟩ := Prod.ext_iff.1 heq
    exact ⟨d, ⟨hd, hclient⟩, hr, hname⟩

/-- A run that records a runtime. -/
theorem build_of_identity {r : RunDoc V} {es : List (String × Py)} (h : r.identity = some es) :
    r.build = some (.identity (withoutGil es)) := by
  rw [RunDoc.build, h]

theorem gil_of_identity {r : RunDoc V} {es : List (String × Py)} (h : r.identity = some es) :
    r.gil = es.lookup "gil_enabled" := by
  rw [RunDoc.gil, h]
  rfl

/-- Where nothing is mixed, two runs of a client and a point agree on what both record. -/
theorem agree_of_not_mixed (hdir : dir.WellFormed) (hnot : ¬ dir.Mixed)
    {x y : Option String × RunDoc V} (hx : x ∈ dir.runs) (hy : y ∈ dir.runs) (hclient : x.1 = y.1)
    (hpoint : x.2.pointName = y.2.pointName) {es fs : List (String × Py)}
    (hes : x.2.identity = some es) (hfs : y.2.identity = some fs) {k : String} {v w : Py}
    (hv : es.lookup k = some v) (hw : fs.lookup k = some w) : v.eq w = true := by
  refine agree_of_same ((hdir.runs x hx).identity es hes) ((hdir.runs y hy).identity fs hfs) ?_ ?_
    hv hw
  · by_contra hdiffer
    exact hnot (.inr (.inl ⟨x, hx, y, hy, _, _, build_of_identity hes, build_of_identity hfs,
      hdiffer⟩))
  · intro u u' hu hu'
    by_contra hne
    rw [← gil_of_identity hes] at hu
    rw [← gil_of_identity hfs] at hu'
    exact hnot (.inl ⟨x, hx, y, hy, hclient, hpoint, u, u', hu, hu', hne⟩)

theorem load_of_not_mixed (hdir : dir.WellFormed) (hdocs : readDocs dir.files = .ok docs)
    (hnot : ¬ dir.Mixed) : loadCampaign F dir = assemble dir docs := by
  obtain ⟨docs', hdocs', hfrom, hnotes⟩ := hdir.reads F
  obtain rfl := Except.ok.inj (hdocs.symm.trans hdocs')
  rw [← refuses_iff_mixed (F := F) hdir hfrom] at hnot
  have hcheck := ((checkRuntimes_eq F dir _).resolve_left fun h => hnot h.1).2
  rw [loadCampaign, hdocs]
  change each (noteOf F) (taggedRuns docs) >>= _ = _
  rw [hnotes]
  change checkRuntimes F dir _ >>= _ = _
  rw [hcheck]
  rfl

end

/-! ## Two clients -/

/-- The document of a client with one run, which tells its GIL state. -/
def gilDoc (client : String) (enabled : Bool) : ClientDoc Unit :=
  ⟨some client, some [⟨some ⟨some "p", ()⟩, none, none,
    some ⟨some [("gil_enabled", .bool enabled)], none⟩, none, ()⟩], none⟩

/-- Two clients, one of which brings its GIL back. -/
def native : Directory Unit where
  path := "results/native"
  name := "native"
  manifest := ⟨none, none, false, none, none, List.nodup_nil, none, none⟩
  files := [("a.json", .ok (gilDoc "a" true)), ("b.json", .ok (gilDoc "b" false))]

theorem mem_runs_native {x : Option String × RunDoc Unit} (h : x ∈ native.runs) :
    ∃ b, x.2.identity = some [("gil_enabled", .bool b)] ∧ x.2.python = none ∧
      x.1 = some (if b then "a" else "b") := by
  rcases List.mem_cons.1 h with rfl | h
  · exact ⟨true, rfl, rfl, rfl⟩
  · rcases List.mem_cons.1 h with rfl | h
    · exact ⟨false, rfl, rfl, rfl⟩
    · cases h

theorem wellFormed_native : native.WellFormed := by
  refine ⟨?_, by decide, fun x hx => ?_, nofun⟩
  · intro f hf
    rcases List.mem_cons.1 hf with rfl | hf
    · exact ⟨_, "a", rfl, rfl⟩
    · rcases List.mem_cons.1 hf with rfl | hf
      · exact ⟨_, "b", rfl, rfl⟩
      · cases hf
  · obtain ⟨b, hidentity, hpython, -⟩ := mem_runs_native hx
    refine ⟨fun es hes => ?_, fun v hv => ?_, fun s hs => ?_⟩
    · obtain rfl := Option.some.inj (hidentity.symm.trans hes)
      exact .dict (List.nodup_singleton _) fun e he => List.mem_singleton.1 he ▸ .bool b
    · rw [gil_of_identity hidentity] at hv
      exact ⟨b, (Option.some.inj hv).symm⟩
    · cases hpython.symm.trans hs

theorem not_mixed_native : ¬ native.Mixed := by
  rintro (⟨x, hx, y, hy, hclient, -, v, w, hv, hw, hne⟩ | ⟨x, hx, y, hy, b, b', hb, hb', hne⟩ |
    ⟨recorded, hrecorded, -⟩)
  · obtain ⟨b, hb, -, hxb⟩ := mem_runs_native hx
    obtain ⟨b', hb', -, hyb⟩ := mem_runs_native hy
    rw [hxb, hyb] at hclient
    rw [gil_of_identity hb] at hv
    rw [gil_of_identity hb'] at hw
    refine hne ?_
    rw [← Option.some.inj hv, ← Option.some.inj hw]
    cases b <;> cases b'
    · rfl
    · exact absurd hclient (by decide)
    · exact absurd hclient (by decide)
    · rfl
  · obtain ⟨g, hg, -, -⟩ := mem_runs_native hx
    obtain ⟨g', hg', -, -⟩ := mem_runs_native hy
    obtain rfl := Option.some.inj (hb.symm.trans (build_of_identity hg))
    obtain rfl := Option.some.inj (hb'.symm.trans (build_of_identity hg'))
    exact hne rfl
  · cases hrecorded

theorem load_native (F : FloatText) : ∃ c, loadCampaign F native = .ok c := by
  have hdocs : readDocs native.files =
      .ok [("a", gilDoc "a" true), ("b", gilDoc "b" false)] := by
    rw [readDocs, native, List.mergeSort_of_pairwise (by simp)]
    rfl
  rw [load_of_not_mixed wellFormed_native hdocs not_mixed_native]
  exact ⟨_, rfl⟩

/-- **A loaded campaign combines no interpreters.**  `load_campaign` raises `ValueError` exactly on
a mixture; in what it returns, the runs of a cell agree on every field that both record; and
different clients may still differ in their GIL states. -/
theorem combines_no_interpreters (F : FloatText) (dir : Directory V) (hdir : dir.WellFormed) :
    ((∃ message, loadCampaign F dir = .error (.valueError message)) ↔ dir.Mixed) ∧
      (∀ c, loadCampaign F dir = .ok c → ∀ x ∈ c.cells, ∀ r ∈ x.2.runs ++ x.2.retried,
        ∀ r' ∈ x.2.runs ++ x.2.retried, ∀ es fs, r.identity = some es → r'.identity = some fs →
          ∀ k v w, es.lookup k = some v → fs.lookup k = some w → v.eq w = true) ∧
      ∃ c, loadCampaign F native = .ok c ∧ ∃ x ∈ native.runs, ∃ y ∈ native.runs, x.1 ≠ y.1 ∧
        x.2.gil = some (.bool true) ∧ y.2.gil = some (.bool false) := by
  refine ⟨raises_iff_mixed hdir, ?_, ?_⟩
  · intro c hc x hx r hr r' hr' es fs hes hfs k v w hv hw
    have hnot : ¬ dir.Mixed := by
      rw [← raises_iff_mixed (F := F) hdir, hc]
      exact nofun
    obtain ⟨names, hloaded⟩ := loadCampaign_loaded hdir.clients hc
    have hperm := hloaded.partitioned.each x hx
    obtain ⟨hrun, hpoint⟩ := mem_recordsOf.1 (hperm.mem_iff.1 hr)
    obtain ⟨hrun', hpoint'⟩ := mem_recordsOf.1 (hperm.mem_iff.1 hr')
    exact agree_of_not_mixed hdir hnot hrun hrun' rfl (hpoint.trans hpoint'.symm) hes hfs hv hw
  · obtain ⟨c, hc⟩ := load_native F
    exact ⟨c, hc, _, List.mem_cons_self, _, List.mem_cons_of_mem _ List.mem_cons_self, by decide, rfl,
      rfl⟩

theorem combines_no_interpreters_native :
    ¬ ∃ message, loadCampaign .fraction native = .error (.valueError message) := fun h =>
  not_mixed_native ((combines_no_interpreters .fraction native wellFormed_native).1.1 h)

end Report.Files
