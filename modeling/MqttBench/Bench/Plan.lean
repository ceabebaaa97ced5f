import MqttBench.Bench.Sessions
import MqttBench.Lib.Rotation

/-!
# The plan of a campaign

What `plan` of `bench/campaign.py` lists, point by point and run by run.

* `plan_eq` — the entries of a point are its blocks, one for each run.
* `plan_rotates` — **the blocks of a point are a Latin square.**
-/

namespace Bench

section Blocks

variable (refusals : Refusals) (clients : List String)

/-- `able`. -/
def able (point : Point) : List String := clients.filter fun c => (refusals c point).isEmpty

/-- The entries of a point for one run. -/
def block (point : Point) (i : ℕ) : List Key :=
  ((able refusals clients point).rotate i).map fun client => ⟨point.name, client, i⟩

/-- The entries of a point. -/
def pointPlan (runs : ℤ) (point : Point) : List Key :=
  (List.range runs.toNat).flatMap (block refusals clients point)

/-- The blocks of the code are rotations; where no client supports the point they are empty. -/
theorem block_eq (point : Point) (i : ℕ) :
    ((able refusals clients point).drop
        (if (able refusals clients point).isEmpty then 0
          else i % (able refusals clients point).length) ++
      (able refusals clients point).take
        (if (able refusals clients point).isEmpty then 0
          else i % (able refusals clients point).length)).map
            (fun client => ⟨point.name, client, i⟩) = block refusals clients point i := by
  unfold block
  split
  · next hnone =>
    rw [List.isEmpty_iff.1 hnone]
    rfl
  · rw [← List.rotate_eq_drop_append_take_mod]

/-- The plan goes through the points, and at each of them through the runs. -/
theorem plan_eq (points : List Point) (runs : ℤ) :
    plan refusals points clients runs = points.flatMap (pointPlan refusals clients runs) := by
  have hpoint : ∀ point, pointPlan refusals clients runs point = _ := fun point =>
    congrArg (List.flatMap · (List.range runs.toNat))
      (funext fun i => (block_eq refusals clients point i).symm)
  rw [funext hpoint]
  rfl

theorem plan_append (pre post : List Point) (runs : ℤ) :
    plan refusals (pre ++ post) clients runs =
      plan refusals pre clients runs ++ plan refusals post clients runs := by
  rw [plan_eq, plan_eq, plan_eq, List.flatMap_append]

theorem point_of_mem_pointPlan {runs : ℤ} {point : Point} {k : Key}
    (h : k ∈ pointPlan refusals clients runs point) : k.point = point.name := by
  obtain ⟨i, -, hk⟩ := List.mem_flatMap.1 h
  obtain ⟨client, -, rfl⟩ := List.mem_map.1 hk
  rfl

theorem getElem?_block {point : Point} {i p : ℕ} {client : String} :
    (block refusals clients point i)[p]? = some ⟨point.name, client, i⟩ ↔
      ((able refusals clients point).rotate i)[p]? = some client := by
  rw [block, List.getElem?_map, Option.map_eq_some_iff]
  constructor
  · rintro ⟨client', h, heq⟩
    cases heq
    exact h
  · intro h
    exact ⟨client, h, rfl⟩

/-- The entries of other points are not among those of a name. -/
theorem filter_plan_of_other {points : List Point} {name : String}
    (h : ∀ p ∈ points, p.name ≠ name) (runs : ℤ) :
    (plan refusals points clients runs).filter (fun k => k.point = name) = [] := by
  rw [List.filter_eq_nil_iff, plan_eq]
  intro k hk
  obtain ⟨p, hp, hk⟩ := List.mem_flatMap.1 hk
  have hname := point_of_mem_pointPlan refusals clients hk
  simpa [hname] using h p hp

end Blocks

/-- **Rotation spreads drift evenly.**  The entries of a point stand together, wherever the
point is in the list, and they are all the entries of its name when no other point bears it.
Run `i` starts at client `i mod n` of the `n` that support the point, and over `n` runs every
client has every position once. -/
theorem plan_rotates (refusals : Refusals) (pre post : List Point) (point : Point)
    (clients : List String) (hclients : clients.Nodup) (runs : ℤ) :
    plan refusals (pre ++ point :: post) clients runs =
        plan refusals pre clients runs ++
          (List.range runs.toNat).flatMap (block refusals clients point) ++
            plan refusals post clients runs ∧
      ((∀ p ∈ pre ++ post, p.name ≠ point.name) →
        (plan refusals (pre ++ point :: post) clients runs).filter
            (fun k => k.point = point.name) =
          (List.range runs.toNat).flatMap (block refusals clients point)) ∧
      ∀ n, (able refusals clients point).length = n → 1 ≤ n →
        (∀ i, block refusals clients point i =
            ((able refusals clients point).drop (i % n) ++
              (able refusals clients point).take (i % n)).map
                fun client => ⟨point.name, client, i⟩) ∧
          (∀ i, ((block refusals clients point i).map Key.client).Perm
            (able refusals clients point)) ∧
          ∀ start, ∀ client ∈ able refusals clients point, ∀ p < n,
            ∃! i, start ≤ i ∧ i < start + n ∧
              (block refusals clients point i)[p]? = some ⟨point.name, client, i⟩ := by
  have hsplit : plan refusals (pre ++ point :: post) clients runs =
      plan refusals pre clients runs ++
        (List.range runs.toNat).flatMap (block refusals clients point) ++
          plan refusals post clients runs := by
    rw [plan_append, plan_eq _ _ (point :: post), List.flatMap_cons, ← plan_eq, List.append_assoc]
    rfl
  refine ⟨hsplit, ?alone, ?blocks⟩
  case alone =>
    intro halone
    have hself : ((List.range runs.toNat).flatMap (block refusals clients point)).filter
        (fun k => k.point = point.name) =
          (List.range runs.toNat).flatMap (block refusals clients point) := by
      rw [List.filter_eq_self]
      intro k hk
      simpa using point_of_mem_pointPlan refusals clients hk
    rw [hsplit, List.filter_append, List.filter_append, hself,
      filter_plan_of_other _ _ fun p hp => halone p (List.mem_append_left _ hp),
      filter_plan_of_other _ _ fun p hp => halone p (List.mem_append_right _ hp),
      List.nil_append, List.append_nil]
  case blocks =>
    rintro n rfl -
    refine ⟨?rotated, ?perm, ?latin⟩
    case rotated =>
      intro i
      rw [block, List.rotate_eq_drop_append_take_mod]
    case perm =>
      intro i
      rw [block, List.map_map]
      simpa [Function.comp_def] using List.rotate_perm (able refusals clients point) i
    case latin =>
      intro start client hclient p hp
      simp only [getElem?_block]
      exact Rotation.latin (hclients.filter _) hclient hp start

/-- Three clients, of which the second cannot do the point. -/
theorem plan_rotates_three :
    (block (fun client _ => if client = "aiomqtt3" then ["not_implemented:v3"] else [])
        ["paho", "aiomqtt3", "gmqtt"] { name := "pub_qos0_max", kind := .pub, question := "" } 5
      ).map Key.client |>.Perm
      (able (fun client _ => if client = "aiomqtt3" then ["not_implemented:v3"] else [])
        ["paho", "aiomqtt3", "gmqtt"] { name := "pub_qos0_max", kind := .pub, question := "" }) :=
  ((plan_rotates _ [] [] _ ["paho", "aiomqtt3", "gmqtt"] (by decide) 6).2.2 2 (by decide)
    (by decide)).2.1 5

end Bench
