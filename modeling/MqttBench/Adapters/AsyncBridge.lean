import MqttBench.Lib.Dicts
import MqttBench.Lib.Topics

/-!
# The asyncio adapters' dispatch

`topic_matches_sub` and `_dispatch_message` of `adapters/async_bridge.py`, which take the
place of the routing that the asyncio libraries lack.

* `topicMatchesSub`, `dispatchMessage` — the program.
* `topicMatchesSub_iff` — the loop over the levels decides the matching relation.
* `filters_follow_mqtt` — **every matching filter's callback is called, once and in order,
  and `on_message` where there is none.**
-/

namespace Adapters

open Topics

/-! ## The program -/

/-- The loop of `topic_matches_sub` over the levels of the filter, from level `i` of `n`. -/
def matchLoop (n : ℕ) (topicLevels : List String) : List String → ℕ → Bool
  | [], _ => decide (n = topicLevels.length)
  | level :: subLevels, i =>
    if level = "#" then decide (i = n - 1)
    else
      match topicLevels[i]? with
      | none => false
      | some topicLevel =>
        if level = "+" then matchLoop n topicLevels subLevels (i + 1)
        else if level ≠ topicLevel then false
        else matchLoop n topicLevels subLevels (i + 1)

/-- `topic_matches_sub(sub, topic)`. -/
def topicMatchesSub (sub topic : String) : Bool :=
  if sub = "#" then true
  else matchLoop (levels sub).length (levels topic) (levels sub) 0

/-- The part of `BridgedAdapterBase` that dispatches: the dictionary of callbacks, in the
order in which their filters were registered, and `on_message`. -/
structure BridgedAdapter (C : Type) where
  topicCallbacks : List (String × C)
  /-- No filter is registered twice. -/
  nodup : (topicCallbacks.map Prod.fst).Nodup
  onMessage : Option C

variable {C : Type}

/-- `d[topic] = callback`, on an insertion-ordered dictionary. -/
def setCallback (topic : String) (callback : C) : List (String × C) → List (String × C)
  | [] => [(topic, callback)]
  | e :: d => if e.1 = topic then (topic, callback) :: d else e :: setCallback topic callback d

theorem setCallback_eq_set (topic : String) (callback : C) (d : List (String × C)) :
    setCallback topic callback d = Dicts.set d topic callback := by
  induction d with
  | nil => rfl
  | cons e d ih => rw [setCallback, Dicts.set, ih]

/-- `message_callback_add(topic, callback)`. -/
def BridgedAdapter.messageCallbackAdd (a : BridgedAdapter C) (topic : String) (callback : C) :
    BridgedAdapter C where
  topicCallbacks := setCallback topic callback a.topicCallbacks
  nodup := by
    rw [setCallback_eq_set]
    exact Dicts.nodup_keys_set a.nodup topic callback
  onMessage := a.onMessage

/-- The loop of `_dispatch_message`, over a copy of the dictionary: a callback may do to the
adapter what it likes.  The adapter after it, `matched`, and the callbacks that were called. -/
def dispatchLoop (act : C → BridgedAdapter C → BridgedAdapter C) (topic : String) :
    List (String × C) → BridgedAdapter C → Bool → BridgedAdapter C × Bool × List C
  | [], a, matched => (a, matched, [])
  | (filt, callback) :: d, a, matched =>
    if topicMatchesSub filt topic then
      let (a, matched, calls) := dispatchLoop act topic d (act callback a) true
      (a, matched, callback :: calls)
    else dispatchLoop act topic d a matched

/-- `_dispatch_message(msg)`: the adapter after it and the callbacks that were called. -/
def dispatchMessage (act : C → BridgedAdapter C → BridgedAdapter C) (a : BridgedAdapter C)
    (topic : String) : BridgedAdapter C × List C :=
  let (a, matched, calls) := dispatchLoop act topic a.topicCallbacks a false
  if matched then (a, calls)
  else
    match a.onMessage with
    | none => (a, calls)
    | some onMessage => (act onMessage a, calls ++ [onMessage])

/-! ## Matching -/

/-- **The loop decides whether the rest of the filter matches the rest of the topic.** -/
theorem matchLoop_iff (topicLevels subLevels : List String) (i : ℕ)
    (hi : i ≤ topicLevels.length) :
    matchLoop (i + subLevels.length) topicLevels subLevels i = true ↔
      Matches (subLevels.map level) (topicLevels.drop i) := by
  induction subLevels generalizing i with
  | nil =>
    rw [matchLoop, decide_eq_true_eq, List.map_nil, matches_nil_iff, List.drop_eq_nil_iff]
    simp only [List.length_nil]
    omega
  | cons s subLevels ih =>
    rw [matchLoop, List.map_cons]
    by_cases hhash : s = "#"
    · rw [if_pos hhash, level_eq_hash_iff.2 hhash, matches_hash_iff, decide_eq_true_eq,
        List.map_eq_nil_iff, ← List.length_eq_zero_iff, List.length_cons]
      omega
    · rw [if_neg hhash]
      rcases eq_or_lt_of_le hi with rfl | hlt
      · rw [List.getElem?_eq_none le_rfl, List.drop_length, matches_cons_nil_iff,
          level_eq_hash_iff]
        simp [hhash]
      · have hnext := ih (i + 1) hlt
        rw [Nat.add_assoc, Nat.add_comm 1] at hnext
        rw [List.getElem?_eq_getElem hlt, List.drop_eq_getElem_cons hlt, List.length_cons]
        by_cases hplus : s = "+"
        · have hlevel : level s = .plus := if_pos hplus
          rw [hlevel, matches_plus_cons_iff, ← hnext]
          simp only [if_pos hplus]
        · have hlevel : level s = .name s := by rw [level, if_neg hplus, if_neg hhash]
          rw [hlevel, matches_name_cons_iff, ← hnext]
          by_cases hname : s = topicLevels[i]
          · simp [hname]
          · simp [hplus, hname]

/-- **`topic_matches_sub` decides the matching relation.** -/
theorem topicMatchesSub_iff (sub topic : String) :
    topicMatchesSub sub topic = true ↔ Matches (topicFilter sub) (levels topic) := by
  unfold topicMatchesSub
  by_cases h : sub = "#"
  · subst h
    have hfilter : topicFilter "#" = [.hash] := by decide
    rw [if_pos rfl, hfilter, matches_hash_iff]
    simp
  · have hloop := matchLoop_iff (levels topic) (levels sub) 0 (Nat.zero_le _)
    rw [Nat.zero_add, List.drop_zero] at hloop
    rw [if_neg h, hloop]
    rfl

/-! ## Dispatch -/

/-- The registered filters that match, with their callbacks. -/
def BridgedAdapter.hits (a : BridgedAdapter C) (topic : String) : List (String × C) :=
  a.topicCallbacks.filter fun e => Matches (topicFilter e.1) (levels topic)

/-- **The loop calls the callbacks of the filters that match**, and knows whether there were
any. -/
theorem dispatchLoop_eq (act : C → BridgedAdapter C → BridgedAdapter C) (topic : String)
    (d : List (String × C)) (a : BridgedAdapter C) (matched : Bool) :
    let hits := d.filter fun e => Matches (topicFilter e.1) (levels topic)
    (dispatchLoop act topic d a matched).2.2 = hits.map Prod.snd ∧
      (hits = [] → (dispatchLoop act topic d a matched).1 = a ∧
        (dispatchLoop act topic d a matched).2.1 = matched) ∧
      (hits ≠ [] → (dispatchLoop act topic d a matched).2.1 = true) := by
  induction d generalizing a matched with
  | nil => simp [dispatchLoop]
  | cons e d ih =>
    obtain ⟨filt, callback⟩ := e
    unfold dispatchLoop
    by_cases hmatch : topicMatchesSub filt topic = true
    · obtain ⟨hcalls, hnone, hsome⟩ := ih (act callback a) true
      rw [if_pos hmatch, List.filter_cons_of_pos (by simpa using (topicMatchesSub_iff _ _).1 hmatch)]
      refine ⟨congrArg _ hcalls, nofun, fun _ => ?_⟩
      by_cases hrest : d.filter (fun e => Matches (topicFilter e.1) (levels topic)) = []
      · exact (hnone hrest).2
      · exact hsome hrest
    · rw [if_neg hmatch, List.filter_cons_of_neg (by simpa using mt (topicMatchesSub_iff _ _).2 hmatch)]
      exact ih a matched

theorem calls_dispatchMessage (act : C → BridgedAdapter C → BridgedAdapter C)
    (a : BridgedAdapter C) (topic : String) :
    (dispatchMessage act a topic).2 =
      if a.hits topic = [] then a.onMessage.toList else (a.hits topic).map Prod.snd := by
  obtain ⟨hcalls, hnone, hsome⟩ := dispatchLoop_eq act topic a.topicCallbacks a false
  simp only [dispatchMessage]
  by_cases hhits : a.hits topic = []
  · obtain ⟨hsame, hmatched⟩ := hnone hhits
    rw [hmatched, hsame, hcalls, if_pos hhits, if_neg Bool.false_ne_true]
    rw [BridgedAdapter.hits] at hhits
    rw [hhits]
    cases a.onMessage with
    | none => rfl
    | some onMessage => rfl
  · rw [hsome hhits, if_pos rfl, if_neg hhits]
    exact hcalls

/-- A new filter goes last; a filter that is registered again keeps its place. -/
theorem setCallback_eq {d : List (String × C)} (hd : (d.map Prod.fst).Nodup) (topic : String)
    (callback : C) :
    setCallback topic callback d =
      if topic ∈ d.map Prod.fst then d.map fun e => if e.1 = topic then (topic, callback) else e
      else d ++ [(topic, callback)] := by
  induction d with
  | nil => rfl
  | cons e d ih =>
    obtain ⟨he, hd⟩ := List.nodup_cons.1 hd
    rw [setCallback, ih hd]
    by_cases hself : e.1 = topic
    · have hkeep : d.map (fun e => if e.1 = topic then (topic, callback) else e) = d := by
        rw [List.map_congr_left (g := id), List.map_id]
        intro e' he'
        have hne : e'.1 ≠ topic := fun h => he (hself.trans h.symm ▸ List.mem_map_of_mem he')
        exact if_neg hne
      simp [hself, hkeep]
    · have hne : ¬ topic = e.1 := fun h => hself h.symm
      by_cases hmem : topic ∈ d.map Prod.fst <;> simp [hself, hne, hmem]

/-- **Matching and dispatch follow MQTT.**  Filters are told apart by their spelling, and a
filter's place is where it was registered first. -/
theorem filters_follow_mqtt :
    (∀ sub topic : String,
        topicMatchesSub sub topic = true ↔ Matches (topicFilter sub) (levels topic)) ∧
      (∀ (C : Type) (act : C → BridgedAdapter C → BridgedAdapter C) (a : BridgedAdapter C)
          (topic : String),
        (a.topicCallbacks.map Prod.fst).Nodup ∧
          (dispatchMessage act a topic).2 =
            if a.hits topic = [] then a.onMessage.toList else (a.hits topic).map Prod.snd) ∧
      ∀ (C : Type) (a : BridgedAdapter C) (topic : String) (callback : C),
        (a.messageCallbackAdd topic callback).topicCallbacks =
          if topic ∈ a.topicCallbacks.map Prod.fst then
            a.topicCallbacks.map fun e => if e.1 = topic then (topic, callback) else e
          else a.topicCallbacks ++ [(topic, callback)] :=
  ⟨topicMatchesSub_iff, fun _ act a topic => ⟨a.nodup, calls_dispatchMessage act a topic⟩,
    fun _ a topic callback => setCallback_eq a.nodup topic callback⟩

end Adapters
