import Mathlib

/-!
# The catalogue

The points and profiles of `bench/catalog.py`, as the records and the manifest of a
campaign hold them.

* `Point.asDict` — what is recorded of a point: the extended knobs only when they are set.
* `lookup_asDict` — a field is read back from the record with its default.
* `asDict_injective` — **no two points are recorded alike.**
-/

namespace Bench

/-- `pub | sub | rtt | duplex | idle`. -/
inductive Kind
  | pub
  | sub
  | rtt
  | duplex
  | idle
  deriving DecidableEq

def Kind.name : Kind → String
  | .pub => "pub"
  | .sub => "sub"
  | .rtt => "rtt"
  | .duplex => "duplex"
  | .idle => "idle"

/-- What a field of a recorded point can hold. -/
inductive Value
  | int (n : ℤ)
  | str (s : String)
  | bool (b : Bool)
  | ints (ns : List ℤ)
  deriving DecidableEq

structure Point where
  name : String
  kind : Kind
  question : String
  qos : ℤ := 0
  payload : ℤ := 256
  rate : ℤ := 0
  window : ℤ := 64
  protocol : String := "MQTTv311"
  suite : String := "core"
  topics : ℤ := 1
  filters : ℤ := 0
  tls : Bool := false
  properties : String := "none"
  topicAlias : Bool := false
  receiveMaximum : ℤ := 0
  remainingLengths : List ℤ := []
  deriving DecidableEq

/-- `asdict(self)`. -/
def Point.fields (p : Point) : List (String × Value) :=
  [("name", .str p.name), ("kind", .str p.kind.name), ("question", .str p.question),
    ("qos", .int p.qos), ("payload", .int p.payload), ("rate", .int p.rate),
    ("window", .int p.window), ("protocol", .str p.protocol), ("suite", .str p.suite),
    ("topics", .int p.topics), ("filters", .int p.filters), ("tls", .bool p.tls),
    ("properties", .str p.properties), ("topic_alias", .bool p.topicAlias),
    ("receive_maximum", .int p.receiveMaximum), ("remaining_lengths", .ints p.remainingLengths)]

/-- `_EXTENDED_DEFAULTS`. -/
def extendedDefaults : List (String × Value) :=
  [("topics", .int 1), ("filters", .int 0), ("tls", .bool false), ("properties", .str "none"),
    ("topic_alias", .bool false), ("receive_maximum", .int 0), ("remaining_lengths", .ints [])]

/-- `as_dict`: the fields without the extended ones that have their defaults. -/
def Point.asDict (p : Point) : List (String × Value) :=
  p.fields.filter fun e => extendedDefaults.lookup e.1 ≠ some e.2

structure Profile where
  name : String
  warmupS : ℚ
  measureS : ℚ
  drainS : ℚ
  runs : ℤ
  comparable : Bool
  deriving DecidableEq

/-- The values of `PROFILES`. -/
def profiles : List Profile :=
  [{ name := "standard", warmupS := 2, measureS := 8, drainS := 2, runs := 3, comparable := true },
    { name := "smoke", warmupS := 1 / 2, measureS := 2, drainS := 1, runs := 1
      comparable := false }]

/-! ## What is recorded -/

theorem kind_name_injective : Function.Injective Kind.name := by
  intro a b h
  cases a <;> cases b <;> first | rfl | exact absurd h (by decide)

/-- A field that is filtered out is not found, and another one is found as before. -/
theorem lookup_filter {α β : Type*} [DecidableEq α] (q : α × β → Bool) {l : List (α × β)}
    (hl : (l.map Prod.fst).Nodup) (k : α) :
    (l.filter q).lookup k = (l.lookup k).filter fun v => q (k, v) := by
  induction l with
  | nil => rfl
  | cons e l ih =>
    obtain ⟨k', v⟩ := e
    obtain ⟨hnot, hrest⟩ := List.nodup_cons.1 (show (k' :: l.map Prod.fst).Nodup from hl)
    by_cases hk : k = k'
    · subst hk
      by_cases hq : q (k, v) = true
      · rw [List.filter_cons_of_pos hq]
        simp [Option.filter, hq]
      · have hnone : (l.filter q).lookup k = none := by
          rw [List.lookup_eq_none_iff]
          intro p hp
          rw [bne_iff_ne]
          intro heq
          exact hnot (heq ▸ List.mem_map_of_mem (List.mem_of_mem_filter hp))
        rw [List.filter_cons_of_neg hq, hnone]
        simp [Option.filter, hq]
    · have hbeq : (k == k') = false := beq_eq_false_iff_ne.2 hk
      by_cases hq : q (k', v) = true
      · rw [List.filter_cons_of_pos hq]
        simp only [List.lookup_cons, hbeq, ih hrest]
      · rw [List.filter_cons_of_neg hq]
        simp only [List.lookup_cons, hbeq, ih hrest]

theorem fields_nodup (p : Point) : (p.fields.map Prod.fst).Nodup := by
  simp only [Point.fields, List.map_cons, List.map_nil]
  decide

/-- A field is read back from the record, with its default when it is not there. -/
theorem lookup_asDict {p : Point} {k : String} {v : Value} (hv : p.fields.lookup k = some v) :
    (p.asDict.lookup k).or (extendedDefaults.lookup k) = some v := by
  rw [Point.asDict, lookup_filter _ (fields_nodup p), hv]
  by_cases hd : extendedDefaults.lookup k = some v
  · simp [Option.filter, hd]
  · simp [Option.filter, hd]

theorem lookup_fields {p p' : Point} (h : ∀ k, p.asDict.lookup k = p'.asDict.lookup k)
    {k : String} {v v' : Value} (hv : p.fields.lookup k = some v)
    (hv' : p'.fields.lookup k = some v') : v = v' := by
  have hrecorded := lookup_asDict hv
  rw [h k, lookup_asDict hv'] at hrecorded
  exact (Option.some.inj hrecorded).symm

/-- A point is known by what its record holds for each key. -/
theorem eq_of_lookup_asDict {p p' : Point} (h : ∀ k, p.asDict.lookup k = p'.asDict.lookup k) :
    p = p' := by
  have hname := lookup_fields (k := "name") h rfl rfl
  have hkind := lookup_fields (k := "kind") h rfl rfl
  have hquestion := lookup_fields (k := "question") h rfl rfl
  have hqos := lookup_fields (k := "qos") h rfl rfl
  have hpayload := lookup_fields (k := "payload") h rfl rfl
  have hrate := lookup_fields (k := "rate") h rfl rfl
  have hwindow := lookup_fields (k := "window") h rfl rfl
  have hprotocol := lookup_fields (k := "protocol") h rfl rfl
  have hsuite := lookup_fields (k := "suite") h rfl rfl
  have htopics := lookup_fields (k := "topics") h rfl rfl
  have hfilters := lookup_fields (k := "filters") h rfl rfl
  have htls := lookup_fields (k := "tls") h rfl rfl
  have hproperties := lookup_fields (k := "properties") h rfl rfl
  have halias := lookup_fields (k := "topic_alias") h rfl rfl
  have hreceive := lookup_fields (k := "receive_maximum") h rfl rfl
  have hlengths := lookup_fields (k := "remaining_lengths") h rfl rfl
  cases p
  cases p'
  simp only [Value.str.injEq, Value.int.injEq, Value.bool.injEq, Value.ints.injEq] at *
  simp only [kind_name_injective hkind, hname, hquestion, hqos, hpayload, hrate, hwindow,
    hprotocol, hsuite, htopics, hfilters, htls, hproperties, halias, hreceive, hlengths]

/-- **No two points are recorded alike.** -/
theorem asDict_injective : Function.Injective Point.asDict := by
  intro p p' h
  apply eq_of_lookup_asDict
  intro k
  rw [h]

end Bench
