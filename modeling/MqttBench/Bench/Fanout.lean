import MqttBench.Adapters.AsyncBridge
import MqttBench.Bench.Checks
import MqttBench.Peer.SourceLoop

/-!
# Fan-out topics and filter callbacks

The names that a fan-out point publishes to, and the filters that a filter point registers:
`fanout_topics` of `bench/runner.py`, `topic_name` of the C peer and `_wire_receive` of
`bench/worker.py`.

* `levels_fanoutName` — the levels of a name are those of the base topic and two numbers.
* `topicName_eq` — the C peer's names are the same.
* `matches_filter_iff` — a name belongs to one filter.
* `fanout_partition` — **the filters partition the traffic.**
-/

namespace Bench

open Topics Adapters Checks
open Peer (utf8 snprintf percentD topicName)

/-! ## The program -/

/-- `f"{base}/{i // 10}/{i % 10}"`. -/
def fanoutName (base : String) (i : ℕ) : String :=
  base ++ "/" ++ toString (i / 10) ++ "/" ++ toString (i % 10)

/-- `fanout_topics(base, n)`. -/
def fanoutTopics (base : String) (n : ℕ) : List String := (List.range n).map (fanoutName base)

/-- What `_wire_receive` hands to an adapter: `message_callback(run)`, stamped or not, which
counts a message as received, and `unmatched_callback(run)`. -/
inductive Taker
  | onMessage
  | onUnmatched
  deriving DecidableEq

/-- `RECEIVES`. -/
def receives : List Kind := [.sub, .rtt, .duplex]

/-- `f"{topic}/{d}/+"`. -/
def filterName (topic : String) (d : ℕ) : String := topic ++ "/" ++ toString d ++ "/" ++ "+"

/-- `_wire_receive`, for a base topic `topic`. -/
def wireReceive (point : Point) (topic : String) (a : BridgedAdapter Taker) :
    BridgedAdapter Taker :=
  if point.kind ∉ receives then a
  else if point.filters = 0 then { a with onMessage := some .onMessage }
  else
    (List.range point.filters.toNat).foldl
      (fun a d => a.messageCallbackAdd (filterName topic d) .onMessage)
      { a with onMessage := some .onUnmatched }

/-- An adapter before anything was registered. -/
def bareAdapter : BridgedAdapter Taker := ⟨[], List.nodup_nil, none⟩

/-- `run.received` and `run.unmatched`. -/
structure Taken where
  received : ℕ
  unmatched : ℕ
  deriving DecidableEq

/-- What a callback does to the run. -/
def Taker.call (run : Taken) : Taker → Taken
  | .onMessage => { run with received := run.received + 1 }
  | .onUnmatched => { run with unmatched := run.unmatched + 1 }

/-- The callbacks that a message on `topic` reaches; they leave the adapter alone. -/
def takers (a : BridgedAdapter Taker) (topic : String) : List Taker :=
  (dispatchMessage (fun _ a => a) a topic).2

/-- The counts after messages on `topics`. -/
def takeAll (a : BridgedAdapter Taker) (topics : List String) : Taken :=
  topics.foldl (fun run topic => (takers a topic).foldl Taker.call run) ⟨0, 0⟩

/-! ## Names -/

theorem isDigit_of_mem_toString {n : ℕ} {c : Char} (h : c ∈ (toString n).toList) :
    c.isDigit = true := by
  rw [Nat.toString_eq_repr, Nat.toList_repr] at h
  exact Nat.isDigit_of_mem_toDigits (by decide) (by decide) h

theorem levels_toString (n : ℕ) : levels (toString n) = [toString n] := by
  apply levels_of_no_slash
  intro h
  exact absurd (isDigit_of_mem_toString h) (by decide)

theorem topicFilter_toString (n : ℕ) : topicFilter (toString n) = [.name (toString n)] := by
  rw [topicFilter_of_no_wildcard, levels_toString, List.map_singleton]
  · intro h
    exact absurd (isDigit_of_mem_toString h) (by decide)
  · intro h
    exact absurd (isDigit_of_mem_toString h) (by decide)

theorem toString_injective : Function.Injective (toString : ℕ → String) := by
  intro m n h
  rw [Nat.toString_eq_repr, Nat.toString_eq_repr] at h
  exact Nat.repr_injective h

/-- **The levels of a name**: those of the base topic, the tens and the units. -/
theorem levels_fanoutName (base : String) (i : ℕ) :
    levels (fanoutName base i) = levels base ++ [toString (i / 10), toString (i % 10)] := by
  unfold fanoutName
  rw [levels_append_slash, levels_append_slash, levels_toString, levels_toString,
    List.append_assoc]
  rfl

/-- **Names are distinct.** -/
theorem fanoutName_injective (base : String) : Function.Injective (fanoutName base) := by
  intro i j h
  have hlevels := congrArg levels h
  rw [levels_fanoutName, levels_fanoutName, List.append_right_inj] at hlevels
  obtain ⟨htens, hunits⟩ := List.cons.inj hlevels
  have htens := toString_injective htens
  have hunits := toString_injective (List.cons.inj hunits).1
  omega

theorem fanoutTopics_nodup (base : String) (n : ℕ) : (fanoutTopics base n).Nodup :=
  List.nodup_range.map (fanoutName_injective base)

/-! ## The names of the C peer -/

theorem utf8_append (s t : String) : utf8 (s ++ t) = utf8 s ++ utf8 t := by
  unfold utf8
  rw [String.toUTF8, String.toByteArray_append, ByteArray.data_append, Array.toList_append]
  rfl

/-- **The C peer gives an index the same name**, where it fits the buffer. -/
theorem topicName_eq {base : String} {n cap i : ℕ} (hn : 1 < n)
    (hfits : (utf8 (fanoutName base i)).length < cap) :
    topicName (utf8 base) n cap i = utf8 (fanoutName base i) := by
  have hname : utf8 base ++ 0x2f :: (percentD (Int.tdiv i 10) ++ 0x2f :: percentD (Int.tmod i 10))
      = utf8 (fanoutName base i) := by
    unfold fanoutName
    rw [utf8_append, utf8_append, utf8_append, utf8_append, List.append_assoc, List.append_assoc,
      List.append_assoc]
    rfl
  rw [topicName, if_neg (by omega), hname, snprintf, List.take_of_length_le (by omega)]

/-! ## Filters -/

section Filters

variable {base : String} (hplus : '+' ∉ base.toList) (hhash : '#' ∉ base.toList)
include hplus hhash

theorem topicFilter_filterName (d : ℕ) :
    topicFilter (filterName base d) = (levels base ++ [toString d]).map .name ++ [.plus] := by
  unfold filterName
  rw [topicFilter_append_slash, topicFilter_append_slash, topicFilter_toString,
    topicFilter_of_no_wildcard hplus hhash, List.map_append]
  rfl

/-- Every name belongs to the branch of the base topic. -/
theorem matches_branch (i : ℕ) :
    Matches (topicFilter (base ++ "/" ++ "#")) (levels (fanoutName base i)) := by
  have hfilter : topicFilter (base ++ "/" ++ "#") = (levels base).map .name ++ [.hash] := by
    rw [topicFilter_append_slash, topicFilter_of_no_wildcard hplus hhash]
    rfl
  rw [hfilter, matches_names_hash, levels_fanoutName]
  exact List.prefix_append _ _

/-- **A name belongs to the filter of its tens, and to no other.** -/
theorem matches_filter_iff (d i : ℕ) :
    Matches (topicFilter (filterName base d)) (levels (fanoutName base i)) ↔ d = i / 10 := by
  rw [topicFilter_filterName hplus hhash, matches_names_plus, levels_fanoutName]
  constructor
  · rintro ⟨a, h⟩
    rw [List.append_assoc, List.append_right_inj] at h
    exact (toString_injective (List.cons.inj h).1).symm
  · rintro rfl
    exact ⟨toString (i % 10), by simp⟩

end Filters

theorem filterName_injective (base : String) : Function.Injective (filterName base) := by
  intro d d' h
  have hlevels := congrArg levels h
  unfold filterName at hlevels
  rw [levels_append_slash, levels_append_slash, levels_append_slash, levels_append_slash,
    levels_toString, levels_toString, List.append_left_inj, List.append_right_inj] at hlevels
  exact toString_injective (List.cons.inj hlevels).1

/-! ## Callbacks -/

theorem onMessage_foldl (base : String) (n : ℕ) (a : BridgedAdapter Taker) :
    ((List.range n).foldl (fun a d => a.messageCallbackAdd (filterName base d) .onMessage) a
      ).onMessage = a.onMessage := by
  induction n with
  | zero => rfl
  | succ n ih =>
    rw [List.range_succ, List.foldl_append]
    exact ih

/-- The filters are registered in order. -/
theorem topicCallbacks_foldl (base : String) (n : ℕ) {a : BridgedAdapter Taker}
    (ha : a.topicCallbacks = []) :
    ((List.range n).foldl (fun a d => a.messageCallbackAdd (filterName base d) .onMessage) a
      ).topicCallbacks = (List.range n).map fun d => (filterName base d, .onMessage) := by
  induction n with
  | zero => exact ha
  | succ n ih =>
    rw [List.range_succ, List.foldl_append, List.map_append, ← ih]
    refine (setCallback_eq (BridgedAdapter.nodup _) _ _).trans (if_neg ?_)
    rw [ih]
    intro hmem
    obtain ⟨e, he, heq⟩ := List.mem_map.1 hmem
    obtain ⟨d, hd, rfl⟩ := List.mem_map.1 he
    exact absurd (filterName_injective base heq) (List.mem_range.1 hd).ne

variable {point : Point} {base : String}

/-- The registered filters, whether there are any or not. -/
theorem topicCallbacks_wireReceive (hkind : point.kind ∈ receives) :
    (wireReceive point base bareAdapter).topicCallbacks =
      (List.range point.filters.toNat).map fun d => (filterName base d, .onMessage) := by
  rw [wireReceive, if_neg (not_not.2 hkind)]
  by_cases h0 : point.filters = 0
  · rw [if_pos h0, h0]
    rfl
  · rw [if_neg h0]
    exact topicCallbacks_foldl base _ rfl

theorem onMessage_wireReceive (hkind : point.kind ∈ receives) :
    (wireReceive point base bareAdapter).onMessage =
      some (if point.filters = 0 then .onMessage else .onUnmatched) := by
  rw [wireReceive, if_neg (not_not.2 hkind)]
  by_cases h0 : point.filters = 0
  · rw [if_pos h0, if_pos h0]
  · rw [if_neg h0, if_neg h0]
    exact onMessage_foldl base _ _

theorem filter_range_eq (n k : ℕ) :
    (List.range n).filter (fun d => d = k) = if k < n then [k] else [] := by
  rw [List.filter_eq, List.nodup_range.count]
  by_cases hk : k < n <;> simp [hk]

variable (hplus : '+' ∉ base.toList) (hhash : '#' ∉ base.toList)
include hplus hhash

theorem hits_wireReceive (hkind : point.kind ∈ receives) (i : ℕ) :
    (wireReceive point base bareAdapter).hits (fanoutName base i) =
      if i / 10 < point.filters.toNat then [(filterName base (i / 10), .onMessage)] else [] := by
  unfold BridgedAdapter.hits
  simp only [topicCallbacks_wireReceive hkind, List.filter_map, Function.comp_def,
    matches_filter_iff hplus hhash, filter_range_eq]
  split <;> rfl

/-- **A message reaches the callback of its tens, and the catch-all where there is none.** -/
theorem takers_wireReceive (hkind : point.kind ∈ receives) (i : ℕ) :
    takers (wireReceive point base bareAdapter) (fanoutName base i) =
      if i / 10 < point.filters.toNat then [.onMessage]
      else [if point.filters = 0 then .onMessage else .onUnmatched] := by
  unfold takers
  rw [calls_dispatchMessage, hits_wireReceive hplus hhash hkind, onMessage_wireReceive hkind]
  by_cases hi : i / 10 < point.filters.toNat
  · rw [if_pos hi, if_pos hi]
    rfl
  · rw [if_neg hi, if_neg hi]
    rfl

/-- What a filter point counts: the messages whose tens have a filter, and the others. -/
theorem takeAll_wireReceive (hkind : point.kind ∈ receives) (h0 : point.filters ≠ 0)
    (messages : List ℕ) :
    takeAll (wireReceive point base bareAdapter) (messages.map (fanoutName base)) =
      ⟨messages.countP fun i => i / 10 < point.filters.toNat,
        messages.countP fun i => ¬ i / 10 < point.filters.toNat⟩ := by
  have htakers : ∀ i, takers (wireReceive point base bareAdapter) (fanoutName base i) =
      if i / 10 < point.filters.toNat then [.onMessage] else [.onUnmatched] := by
    intro i
    rw [takers_wireReceive hplus hhash hkind i, if_neg h0]
  generalize point.filters.toNat = n at htakers ⊢
  have hrun : ∀ run : Taken,
      (messages.map (fanoutName base)).foldl
        (fun run topic => (takers (wireReceive point base bareAdapter) topic).foldl Taker.call run)
        run =
      ⟨run.received + messages.countP fun i => i / 10 < n,
        run.unmatched + messages.countP fun i => ¬ i / 10 < n⟩ := by
    induction messages with
    | nil => exact fun run => rfl
    | cons i messages ih =>
      intro run
      rw [List.map_cons, List.foldl_cons, ih, htakers, List.countP_cons, List.countP_cons]
      by_cases hi : i / 10 < n
      · simp [hi, Taker.call, Nat.add_assoc, Nat.add_comm 1]
      · simp [hi, Taker.call, Nat.add_assoc, Nat.add_comm 1]
  have htotal := hrun ⟨0, 0⟩
  rwa [Nat.zero_add, Nat.zero_add] at htotal

omit hplus hhash

/-! ## The check -/

/-- **What `callbacks_matched` asks of a run whose client only receives.** -/
theorem callbacksMatched_iff {record : RunRecord} (hkind : record.point.kind ≠ .pub)
    {final : Snapshot} {sys : Sys} {checks : List Check}
    (h : featureChecks record final sys = .ok checks) :
    (∃ c ∈ checks, c.name = "callbacks_matched" ∧ c.passed = true) ↔
      record.point.filters ≠ 0 ∧ final.unmatched.getD 0 = 0 ∧ 0 < final.received := by
  have hproperties : ¬ (record.point.kind = .pub ∧ record.point.properties ≠ "none") :=
    fun hp => hkind hp.1
  have haliased : ¬ (record.point.kind = .pub ∧ record.point.topicAlias = true) :=
    fun hp => hkind hp.1
  unfold featureChecks at h
  simp only [if_neg hproperties, if_neg haliased] at h
  have hlist : ∀ intact : List Check, (∀ c ∈ intact, c.name = "payloads_intact") →
      ∀ detail : String, ∀ matched : Check,
        matched = { name := "callbacks_matched"
                    passed := decide (final.unmatched.getD 0 = 0 ∧ 0 < final.received)
                    detail } →
        ((∃ c ∈ intact ++ (if record.point.filters = 0 then [] else [matched]) ++ [] ++ [],
            c.name = "callbacks_matched" ∧ c.passed = true) ↔
          record.point.filters ≠ 0 ∧ final.unmatched.getD 0 = 0 ∧ 0 < final.received) := by
    rintro intact hintact detail matched rfl
    have hother : ∀ c ∈ intact, ¬ (c.name = "callbacks_matched" ∧ c.passed = true) := by
      intro c hc hname
      rw [hintact c hc] at hname
      exact absurd hname.1 (by decide)
    by_cases hf : record.point.filters = 0
    · simpa [hf] using hother
    · simp only [List.append_nil, List.mem_append, or_and_right, exists_or, if_neg hf]
      rw [or_iff_right (by rintro ⟨c, hc, h⟩; exact hother c hc h)]
      simp [hf]
  cases hbad : record.peerDoc.sizeMismatch with
  | none =>
    rw [hbad] at h
    cases h
    exact hlist [] (by simp) _ _ rfl
  | some bad =>
    simp only [hbad] at h
    split at h
    · cases hreceived : record.peerDoc.receivedTotal with
      | none =>
        rw [hreceived] at h
        cases h
      | some received =>
        rw [hreceived] at h
        cases h
        exact hlist _ (by simp) _ _ rfl
    · cases h
      exact hlist [] (by simp) _ _ rfl

theorem ne_pub_of_mem_receives {kind : Kind} (h : kind ∈ receives) : kind ≠ .pub := by
  rintro rfl
  exact absurd h (by decide)

/-- **Fan-out topics and filter callbacks partition the traffic.** -/
theorem fanout_partition (base : String) (hplus : '+' ∉ base.toList) (hhash : '#' ∉ base.toList)
    (n filters : ℕ) (hn : 1 < n) :
    (fanoutTopics base n).Nodup ∧
      (∀ i < n, (fanoutTopics base n)[i]? = some (fanoutName base i) ∧
        (∀ cap, (utf8 (fanoutName base i)).length < cap →
          topicName (utf8 base) n cap i = utf8 (fanoutName base i)) ∧
        Matches (topicFilter (base ++ "/" ++ "#")) (levels (fanoutName base i)) ∧
        ∀ d, Matches (topicFilter (filterName base d)) (levels (fanoutName base i)) ↔ d = i / 10) ∧
      ∀ point : Point, point.kind ∈ receives → point.filters = filters →
        (∀ i < n,
          (wireReceive point base bareAdapter).hits (fanoutName base i) =
              (if i / 10 < filters then [(filterName base (i / 10), .onMessage)] else []) ∧
            takers (wireReceive point base bareAdapter) (fanoutName base i) =
              if i / 10 < filters then [.onMessage]
              else [if filters = 0 then .onMessage else .onUnmatched]) ∧
        ∀ (messages : List ℕ), (∀ i, i ∈ messages ↔ i < n) →
          ∀ (record : RunRecord) (final : Snapshot) (sys : Sys) (checks : List Check),
            record.point = point →
            final.received = (takeAll (wireReceive point base bareAdapter)
              (messages.map (fanoutName base))).received →
            final.unmatched = some ((takeAll (wireReceive point base bareAdapter)
              (messages.map (fanoutName base))).unmatched : ℤ) →
            featureChecks record final sys = .ok checks →
            ((∃ c ∈ checks, c.name = "callbacks_matched" ∧ c.passed = true) ↔
              n ≤ 10 * filters) := by
  refine ⟨fanoutTopics_nodup base n, ?names, ?callbacks⟩
  case names =>
    intro i hi
    refine ⟨?_, fun cap hfits => topicName_eq hn hfits, matches_branch hplus hhash i,
      fun d => matches_filter_iff hplus hhash d i⟩
    rw [fanoutTopics, List.getElem?_map, List.getElem?_range hi, Option.map_some]
  case callbacks =>
    intro point hkind hfilters
    have htoNat : point.filters.toNat = filters := by rw [hfilters, Int.toNat_natCast]
    constructor
    · intro i _
      have hhits := hits_wireReceive hplus hhash hkind i
      have htakers := takers_wireReceive hplus hhash hkind i
      rw [htoNat] at hhits htakers
      rw [hfilters] at htakers
      exact ⟨hhits, by simpa using htakers⟩
    · intro messages hmessages record final sys checks hpoint hreceived hunmatched hchecks
      subst hpoint
      rw [callbacksMatched_iff (ne_pub_of_mem_receives hkind) hchecks, hunmatched, hreceived,
        Option.getD_some]
      by_cases h0 : record.point.filters = 0
      · have hnone : filters = 0 := by omega
        simp only [h0, ne_eq, not_true_eq_false, false_and, false_iff]
        omega
      · rw [takeAll_wireReceive hplus hhash hkind h0, htoNat]
        simp only [Int.natCast_eq_zero, Int.natCast_pos, List.countP_eq_zero, List.countP_pos_iff,
          decide_eq_true_eq, hmessages]
        constructor
        · rintro ⟨-, hall, -⟩
          have hlast := hall (n - 1) (by omega)
          omega
        · intro hle
          refine ⟨h0, fun i hi => ?_, 0, by omega, by omega⟩
          omega

/-- Twelve names below `b`, with two filters: the last belongs to the second. -/
theorem fanout_partition_twelve :
    Matches (topicFilter (filterName "b" 1)) (levels (fanoutName "b" 11)) :=
  (((fanout_partition "b" (by decide) (by decide) 12 2 (by decide)).2.1 11 (by decide)).2.2.2
    1).2 (by decide)

end Bench
