import MqttBench.Bench.Fanout
import MqttBench.Bench.RunOnce
import MqttBench.Peer.CommandLine

/-!
# Who sends what to whom

The topics of a run, the peers that are started for it and what the client is told:
`run_topics`, `payload_sizes`, `_peer_plan` and the start of `run_once` of `bench/runner.py`,
and the filter and the names that `main` and `run_source` of the peer make of their settings.

* `runTopics`, `peerPlanCommands`, `listenTopic`, `publishTopics` — the program; a run keeps
  its peers by the keys of the plan.
* `levels_data` — the levels of the topics: one more than the run's own.
* `peerPlan_wired` — **every peer is started, receivers first, and what one side publishes is
  what the other side has subscribed to, and no more.**
-/

namespace Bench

open Topics
open Peer (utf8 snprintf topicName Command PeerMode peerMain peerMain_argv IsInt maxSizes)

/-! ## The program -/

/-- `PUBLISHES`. -/
def publishKinds : List Kind := [.pub, .rtt, .duplex]

/-- What `run_topics` returns. -/
structure RunTopics where
  data : String
  reply : String

/-- `ALIAS_TOPIC_BYTES`. -/
def aliasTopicBytes : ℕ := 200

/-- `run_topics(point, run_id)`. -/
def runTopics (point : Point) (runId : String) : RunTopics where
  data :=
    if point.topicAlias then
      "bench/" ++ runId ++ "/" ++
        String.ofList (List.replicate (aliasTopicBytes - ("bench/" ++ runId ++ "/").length) 't')
    else "bench/" ++ runId ++ "/data"
  reply := "bench/" ++ runId ++ "/reply"

/-- `payload_sizes(point, topic)`. -/
def payloadSizes (point : Point) (topic : String) : List ℤ :=
  if point.remainingLengths = [] then [point.payload]
  else
    let overhead : ℤ := 2 + (utf8 topic).length + (if point.qos ≠ 0 then 2 else 0)
      + (if point.protocol = "MQTTv5" then 1 else 0)
    point.remainingLengths.map fun rl => rl - overhead

/-- The broker's address, and the offer for points without a rate. -/
structure PlanContext where
  host : String
  port : ℤ
  subOffer : ℤ

/-- A peer of the plan: its key in the record, its arguments, and whether it starts before the
worker. -/
structure Planned where
  key : PeerKey
  command : Command
  first : Bool

section

variable (point : Point) (ctx : PlanContext) (runId : String) (topics : RunTopics)

/-- `peer.command("sink", ...)`. -/
def sinkCommand : Command :=
  { mode := "sink", host := ctx.host, port := ctx.port, qos := point.qos
    protocol := point.protocol, topics := point.topics, topic := topics.data
    clientId := "peer-" ++ runId, sizes := payloadSizes point topics.data }

/-- `peer.command("source", ...)`. -/
def sourceCommand (topic clientId : String) (rate : ℤ) : Command :=
  { mode := "source", host := ctx.host, port := ctx.port, qos := point.qos
    protocol := point.protocol, topics := point.topics, topic, clientId, rate
    payload := point.payload, properties := point.properties ≠ "none" }

/-- `peer.command("echo", ...)`. -/
def echoCommand : Command :=
  { mode := "echo", host := ctx.host, port := ctx.port, qos := point.qos
    protocol := point.protocol, topics := point.topics, topic := topics.data
    clientId := "peer-" ++ runId, replyTopic := some topics.reply, replyQos := point.qos }

/-- `_peer_plan(point, ctx, run_id, topics)`. -/
def peerPlanCommands : List Planned :=
  match point.kind with
  | .pub => [⟨.peer, sinkCommand point ctx runId topics, true⟩]
  | .sub =>
    let rate := if point.rate ≠ 0 then point.rate else ctx.subOffer
    [⟨.peer, sourceCommand point ctx topics.data ("peer-" ++ runId) rate, false⟩]
  | .rtt => [⟨.peer, echoCommand point ctx runId topics, true⟩]
  | .duplex =>
    [⟨.peer, sinkCommand point ctx runId topics, true⟩,
      ⟨.peerSource, sourceCommand point ctx topics.reply ("peer-src-" ++ runId) point.rate,
        false⟩]
  | .idle => []

/-- The plan has the keys and the order that a run keeps its peers by. -/
theorem peerPlanCommands_keys :
    (peerPlanCommands point ctx runId topics).map (fun p => (p.key, p.first)) =
      peerPlan point.kind := by
  unfold peerPlanCommands
  cases point.kind <;> rfl

/-- `listen_topic` of the worker's configuration. -/
def listenTopic : String :=
  if point.kind = .rtt ∨ point.kind = .duplex then topics.reply
  else if 1 < point.topics then topics.data ++ "/#"
  else topics.data

/-- `publish_topics` of the worker's configuration. -/
def publishTopics : List String :=
  if 1 < point.topics then fanoutTopics topics.data point.topics.toNat else [topics.data]

end

/-- The filter that `main` subscribes to. -/
def settingsFilter (s : Peer.Settings) : List UInt8 :=
  snprintf 512 (if 1 < s.topics then utf8 s.topic ++ utf8 "/#" else utf8 s.topic)

/-- The name of template `i` of `run_source`. -/
def settingsName (s : Peer.Settings) (i : ℕ) : List UInt8 := topicName (utf8 s.topic) s.topics 512 i

/-! ## Lengths -/

theorem length_utf8_ofList (l : List Char) :
    (utf8 (String.ofList l)).length = (l.map Char.utf8Size).sum := by
  have hbytes : utf8 (String.ofList l) = l.flatMap String.utf8EncodeChar := by
    unfold utf8
    rw [String.toUTF8, String.toByteArray_ofList]
    simp [List.utf8Encode]
  rw [hbytes, List.length_flatMap]
  simp

/-- The text of a number has as many bytes as digits. -/
theorem length_utf8_toString_le {n k : ℕ} (hk : 0 < k) (h : n < 10 ^ k) :
    (utf8 (toString n)).length ≤ k := by
  rw [Nat.toString_eq_ofList_toDigits, length_utf8_ofList]
  have hone : (Nat.toDigits 10 n).map Char.utf8Size = (Nat.toDigits 10 n).map fun _ => 1 := by
    refine List.map_congr_left fun c hc => ?_
    have hdigit := NumberText.isDigit_of_mem hc
    unfold Char.isDigit at hdigit
    simp only [Bool.and_eq_true, decide_eq_true_eq] at hdigit
    exact Char.utf8Size_eq_one_iff.2 (UInt32.le_trans hdigit.2 (by decide))
  rw [hone, List.map_const', List.sum_replicate, smul_eq_mul, mul_one]
  exact (Nat.length_toDigits_le_iff (by decide) hk).2 h

theorem length_utf8_fanoutName (base : String) {i : ℕ} (hi : i < 10000) :
    (utf8 (fanoutName base i)).length ≤ (utf8 base).length + 6 := by
  have htens := length_utf8_toString_le (n := i / 10) (k := 3) (by decide) (by omega)
  have hunits := length_utf8_toString_le (n := i % 10) (k := 1) (by decide) (by omega)
  have hslash : (utf8 "/").length = 1 := by decide
  unfold fanoutName
  rw [utf8_append, utf8_append, utf8_append, utf8_append]
  simp only [List.length_append]
  omega

/-! ## Names and filters -/

/-- The names of `n` topics below a base topic, or the base topic itself. -/
def namesOf (base : String) (n : ℤ) : List String :=
  if 1 < n then fanoutTopics base n.toNat else [base]

/-- The filter for them. -/
def filterOf (base : String) (n : ℤ) : String := if 1 < n then base ++ "/" ++ "#" else base

theorem append_slash_hash (base : String) : base ++ "/#" = base ++ "/" ++ "#" := by
  have hhash : "/#" = "/" ++ "#" := by decide
  rw [hhash, String.append_assoc]

/-- No level of the topic is a wildcard. -/
def Plain (s : String) : Prop := '+' ∉ s.toList ∧ '#' ∉ s.toList

theorem Plain.append {s t : String} (hs : Plain s) (ht : Plain t) : Plain (s ++ t) := by
  unfold Plain
  rw [String.toList_append, List.mem_append, List.mem_append]
  exact ⟨not_or.2 ⟨hs.1, ht.1⟩, not_or.2 ⟨hs.2, ht.2⟩⟩

/-- A topic as a filter takes itself only. -/
theorem matches_plain_iff {s t : String} (h : Plain s) :
    Matches (topicFilter s) (levels t) ↔ levels t = levels s := by
  rw [topicFilter_of_no_wildcard h.1 h.2, ← List.append_nil ((levels s).map _),
    matches_names_append]
  constructor
  · rintro ⟨rest, heq, hrest⟩
    rw [matches_nil_iff] at hrest
    rw [heq, hrest, List.append_nil]
  · intro heq
    exact ⟨[], by rw [heq, List.append_nil], .done⟩

theorem matches_branch_iff {base t : String} (h : Plain base) :
    Matches (topicFilter (base ++ "/" ++ "#")) (levels t) ↔ levels base <+: levels t := by
  have hfilter : topicFilter (base ++ "/" ++ "#") = (levels base).map .name ++ [.hash] := by
    rw [topicFilter_append_slash, topicFilter_of_no_wildcard h.1 h.2]
    rfl
  rw [hfilter, matches_names_hash]

/-- The filter takes all its names. -/
theorem matches_filterOf {base : String} (h : Plain base) {n : ℤ} {t : String}
    (ht : t ∈ namesOf base n) : Matches (topicFilter (filterOf base n)) (levels t) := by
  unfold namesOf at ht
  unfold filterOf
  by_cases hn : 1 < n
  · rw [if_pos hn] at ht ⊢
    obtain ⟨i, _, rfl⟩ := List.mem_map.1 ht
    exact matches_branch h.1 h.2 i
  · rw [if_neg hn] at ht ⊢
    obtain rfl := List.mem_singleton.1 ht
    exact (matches_plain_iff h).2 rfl

/-- A name begins with its base topic. -/
theorem levels_prefix_of_mem {base t : String} {n : ℤ} (ht : t ∈ namesOf base n) :
    levels base <+: levels t := by
  unfold namesOf at ht
  split at ht
  · obtain ⟨i, _, rfl⟩ := List.mem_map.1 ht
    rw [levels_fanoutName]
    exact List.prefix_append _ _
  · obtain rfl := List.mem_singleton.1 ht
    exact List.prefix_refl _

/-- **A filter takes nothing of another branch.** -/
theorem not_matches_of_ne {run w v base other t : String} {n m : ℤ} (hbase : Plain base)
    (hw : levels base = levels run ++ [w]) (hv : levels other = levels run ++ [v]) (hne : w ≠ v)
    (ht : t ∈ namesOf other m) : ¬ Matches (topicFilter (filterOf base n)) (levels t) := by
  intro hmatch
  have hprefix : levels base <+: levels t := by
    unfold filterOf at hmatch
    split at hmatch
    · exact (matches_branch_iff hbase).1 hmatch
    · exact ((matches_plain_iff hbase).1 hmatch) ▸ List.prefix_refl _
  have hother := levels_prefix_of_mem ht
  have hlength : (levels base).length = (levels other).length := by
    rw [hw, hv, List.length_append, List.length_append]
    rfl
  have heq := List.IsPrefix.eq_of_length
    (List.prefix_of_prefix_length_le hprefix hother hlength.le) hlength
  rw [hw, hv, List.append_right_inj] at heq
  exact hne (List.cons.inj heq).1

/-! ## The topics of a run -/

/-- A run id: short, and without wildcards. -/
structure IsRunId (runId : String) : Prop where
  plain : Plain runId
  short : (utf8 runId).length ≤ 40

/-- **The data topic is one level below the run's own, and so is the reply topic.** -/
theorem levels_data (point : Point) {runId : String} (h : IsRunId runId) :
    Plain (runTopics point runId).data ∧ (utf8 (runTopics point runId).data).length ≤ 250 ∧
    ∃ w, w ≠ "reply" ∧
      levels (runTopics point runId).data = levels ("bench/" ++ runId) ++ [w] := by
  have hplain : Plain ("bench/" ++ runId) := Plain.append ⟨by decide, by decide⟩ h.plain
  have hbench : (utf8 ("bench/" ++ runId)).length ≤ 46 := by
    rw [utf8_append, List.length_append]
    have hlength : (utf8 "bench/").length = 6 := by decide
    have := h.short
    omega
  unfold runTopics
  by_cases halias : point.topicAlias = true
  · simp only [halias, if_true]
    obtain ⟨k, hk, hle⟩ : ∃ k, aliasTopicBytes - ("bench/" ++ runId ++ "/").length = k ∧
        k ≤ 200 := ⟨_, rfl, Nat.sub_le _ _⟩
    rw [hk]
    let ts := List.replicate k 't'
    have hts : ∀ c ∈ ts, c = 't' := fun c hc => List.eq_of_mem_replicate hc
    have hlist : (String.ofList ts).toList = ts := String.toList_ofList
    refine ⟨?_, ?_, String.ofList ts, ?_, ?_⟩
    · refine Plain.append (Plain.append hplain ⟨by decide, by decide⟩) ?_
      unfold Plain
      rw [hlist]
      exact ⟨fun hc => absurd (hts _ hc) (by decide), fun hc => absurd (hts _ hc) (by decide)⟩
    · have hbytes : (utf8 (String.ofList (List.replicate k 't'))).length = k := by
        rw [length_utf8_ofList, List.map_replicate, List.sum_replicate, smul_eq_mul]
        exact Nat.mul_one k
      have hslash : (utf8 "/").length = 1 := by decide
      rw [utf8_append, utf8_append, List.length_append, List.length_append]
      omega
    · intro heq
      have hr : 'r' ∈ ts := by
        rw [← hlist, heq]
        decide
      exact absurd (hts _ hr) (by decide)
    · rw [levels_append_slash]
      have hslash : levels (String.ofList ts) = [String.ofList ts] := by
        apply levels_of_no_slash
        rw [hlist]
        exact fun hc => absurd (hts _ hc) (by decide)
      rw [hslash]
  · simp only [halias, Bool.false_eq_true, if_false]
    refine ⟨Plain.append hplain ⟨by decide, by decide⟩, ?_, "data", by decide, ?_⟩
    · have hlength : (utf8 "/data").length = 5 := by decide
      rw [utf8_append, List.length_append]
      omega
    · have hdata : "/data" = "/" ++ "data" := by decide
      rw [hdata, ← String.append_assoc, levels_append_slash]
      rfl

theorem levels_reply (point : Point) {runId : String} (h : IsRunId runId) :
    Plain (runTopics point runId).reply ∧ (utf8 (runTopics point runId).reply).length ≤ 250 ∧
      levels (runTopics point runId).reply = levels ("bench/" ++ runId) ++ ["reply"] := by
  have hlength : (utf8 "bench/").length = 6 ∧ (utf8 "/reply").length = 6 := by decide
  have hreply : "/reply" = "/" ++ "reply" := by decide
  refine ⟨?_, ?_, ?_⟩
  · exact Plain.append (Plain.append ⟨by decide, by decide⟩ h.plain) ⟨by decide, by decide⟩
  · unfold runTopics
    rw [utf8_append, utf8_append, List.length_append, List.length_append]
    have := h.short
    omega
  · unfold runTopics
    rw [hreply, ← String.append_assoc, levels_append_slash]
    rfl

/-! ## The settings of a peer -/

/-- The filter of a peer is that of its topic. -/
theorem settingsFilter_eq {c : Command} (mode : PeerMode) (h : (utf8 c.topic).length ≤ 250) :
    settingsFilter (c.settings mode) = utf8 (filterOf c.topic c.topics) := by
  have hfits : ∀ s : List UInt8, s.length ≤ 252 → snprintf 512 s = s := fun s hs => by
    rw [snprintf, List.take_of_length_le (by omega)]
  have hhash : (utf8 "/#").length = 2 := by decide
  have htopics : 1 < (c.settings mode).topics ↔ 1 < c.topics := by
    simp only [Command.settings]
    omega
  unfold settingsFilter filterOf
  simp only [htopics]
  by_cases hn : 1 < c.topics
  · rw [if_pos hn, if_pos hn, hfits, ← append_slash_hash, utf8_append]
    · rfl
    · rw [List.length_append]
      exact Nat.add_le_add h hhash.le
  · rw [if_neg hn, if_neg hn, hfits]
    · rfl
    · exact h.trans (by decide)

/-- The names of a peer are those below its topic. -/
theorem settingsName_eq {c : Command} (mode : PeerMode) (h : (utf8 c.topic).length ≤ 250)
    (hmax : c.topics ≤ 10000) {i : ℕ} (hi : (i : ℤ) < (c.settings mode).topics) :
    ∃ name ∈ namesOf c.topic c.topics, settingsName (c.settings mode) i = utf8 name := by
  have htopics : (c.settings mode).topics = max 1 c.topics := rfl
  rw [htopics] at hi
  unfold settingsName namesOf
  rw [htopics]
  by_cases hn : 1 < c.topics
  · rw [if_pos hn, max_eq_right hn.le]
    rw [max_eq_right hn.le] at hi
    refine ⟨fanoutName c.topic i, List.mem_map.2 ⟨i, List.mem_range.2 (by omega), rfl⟩, ?_⟩
    have hnat : (c.topics.toNat : ℤ) = c.topics := Int.toNat_of_nonneg (by omega)
    have hname := length_utf8_fanoutName c.topic (show i < 10000 by omega)
    rw [← hnat]
    exact topicName_eq (by omega) (lt_of_le_of_lt hname (by omega))
  · rw [if_neg hn, max_eq_left (by omega)]
    refine ⟨c.topic, List.mem_singleton_self _, ?_⟩
    rw [topicName, if_pos le_rfl, snprintf, List.take_of_length_le]
    · rfl
    · exact h.trans (by decide)

theorem isInt_zero : IsInt 0 := by constructor <;> decide

/-- The payload that a command has unless it says otherwise. -/
theorem isInt_default : IsInt 256 := by constructor <;> decide

theorem isRate_zero : (0 : ℤ) ≤ 0 ∧ (0 : ℤ) < 2 ^ 64 := by decide

/-! ## What belongs together -/

/-- A point within the limits of the peer. -/
structure Asks (point : Point) (ctx : PlanContext) (runId : String) : Prop where
  run : IsRunId runId
  qos : 0 ≤ point.qos ∧ point.qos ≤ 2
  topics : -2 ^ 31 ≤ point.topics ∧ point.topics ≤ 10000
  payload : IsInt point.payload
  port : IsInt ctx.port
  rate : 0 ≤ point.rate ∧ point.rate < 2 ^ 64
  subOffer : 0 ≤ ctx.subOffer ∧ ctx.subOffer < 2 ^ 64
  few : (payloadSizes point (runTopics point runId).data).length ≤ maxSizes
  sizes : ∀ n ∈ payloadSizes point (runTopics point runId).data, 0 ≤ n ∧ n < 2 ^ 32

/-- The topics on which the peers of a run publish. -/
def peerTopics (point : Point) (topics : RunTopics) : List String :=
  match point.kind with
  | .sub => namesOf topics.data point.topics
  | .rtt => [topics.reply]
  | .duplex => namesOf topics.reply point.topics
  | _ => []

/-- A peer that runs with the settings `s` has its place in the run. -/
structure Wired (point : Point) (runId : String) (p : Planned) (s : Peer.Settings) : Prop where
  mode : s.mode.word = p.command.mode
  /-- All that its command line asks for. -/
  read : s = p.command.settings s.mode
  topics : s.topics = max 1 point.topics
  rate : s.mode = .source → (s.rate : ℤ) = p.command.rate
  qos : s.qos = point.qos
  v5 : s.v5 = decide (point.protocol = "MQTTv5")
  /-- A peer that receives is there before the client, and hears all that the client publishes
  and nothing of what the peers publish. -/
  hears : s.mode ≠ .source → p.first = true ∧ point.kind ∈ publishKinds ∧
    ∃ filter, settingsFilter s = utf8 filter ∧
      (∀ t ∈ publishTopics point (runTopics point runId),
        Matches (topicFilter filter) (levels t)) ∧
      ∀ t ∈ peerTopics point (runTopics point runId), ¬ Matches (topicFilter filter) (levels t)
  sizes : s.mode = .sink →
    s.sizes = (payloadSizes point (runTopics point runId).data).map Int.toNat
  /-- A peer that sends comes after the client. -/
  sends : s.mode = .source → p.first = false ∧ point.kind ∈ receives ∧
    ∀ i : ℕ, i < s.topics →
      ∃ name ∈ peerTopics point (runTopics point runId), settingsName s i = utf8 name
  replies : s.mode = .echo → point.kind ∈ receives ∧ s.replyQos = point.qos ∧
    s.replyTopic ∈ peerTopics point (runTopics point runId)

theorem publishTopics_eq (point : Point) (topics : RunTopics) :
    publishTopics point topics = namesOf topics.data point.topics := rfl

section

variable {point : Point} {ctx : PlanContext} {runId : String} (h : Asks point ctx runId)
include h

/-- What no command of the run exceeds. -/
theorem Asks.accepts (mode : PeerMode) {c : Command} (hc : c.Fits) (hmode : c.mode = mode.word)
    (hqos : c.qos = point.qos) (hreply : mode = .echo → c.replyQos = point.qos)
    (htopics : c.topics = point.topics) (hsizes : mode = .sink → c.sizes.length ≤ maxSizes) :
    peerMain c.argv = .ok (c.settings mode) := by
  obtain ⟨h0, h2⟩ := h.qos
  rw [peerMain_argv hc hmode, if_neg, if_neg, if_neg]
  · rw [htopics]
    exact not_lt.2 h.topics.2
  · rintro (hlo | hhi | ⟨he, hlo | hhi⟩)
    · omega
    · omega
    · have := hreply he
      omega
    · have := hreply he
      omega
  · rintro ⟨hsink, hlt⟩
    exact absurd (hsizes hsink) (by omega)

theorem Asks.isInt_topics : IsInt point.topics := by
  have := h.topics
  constructor <;> omega

theorem Asks.isInt_qos : IsInt point.qos := by
  have := h.qos
  constructor <;> omega

/-- The sink and the echo hear the client and no peer. -/
theorem Asks.hears :
    (∀ t ∈ publishTopics point (runTopics point runId),
      Matches (topicFilter (filterOf (runTopics point runId).data point.topics)) (levels t)) ∧
    (point.kind ∈ publishKinds → ∀ t ∈ peerTopics point (runTopics point runId),
      ¬ Matches (topicFilter (filterOf (runTopics point runId).data point.topics))
        (levels t)) := by
  obtain ⟨hplain, -, w, hw, hdata⟩ := levels_data point h.run
  obtain ⟨-, -, hreply⟩ := levels_reply point h.run
  refine ⟨fun t ht => matches_filterOf hplain (by rwa [publishTopics_eq] at ht), ?_⟩
  intro hkind t ht
  unfold peerTopics at ht
  cases hk : point.kind with
  | pub | idle => rw [hk] at ht; cases ht
  | sub => rw [hk] at hkind; exact absurd hkind (by decide)
  | rtt =>
    rw [hk] at ht
    exact not_matches_of_ne (m := 1) hplain hdata hreply hw ht
  | duplex =>
    rw [hk] at ht
    exact not_matches_of_ne hplain hdata hreply hw ht

theorem Asks.sink (key : PeerKey) (hkind : point.kind ∈ publishKinds) :
    ∃ s, peerMain (sinkCommand point ctx runId (runTopics point runId)).argv = .ok s ∧
      Wired point runId ⟨key, sinkCommand point ctx runId (runTopics point runId), true⟩ s := by
  obtain ⟨-, hshort, -⟩ := levels_data point h.run
  have hfits : (sinkCommand point ctx runId (runTopics point runId)).Fits :=
    { port := h.port, qos := h.isInt_qos, payload := isInt_default, replyQos := isInt_zero
      topics := h.isInt_topics, rate := isRate_zero, sizes := h.sizes }
  refine ⟨_, h.accepts .sink hfits rfl rfl (fun he => by cases he) rfl
    fun _ => h.few, ?_⟩
  exact
    { mode := rfl
      read := rfl
      topics := rfl
      rate := fun he => by cases he
      qos := rfl
      v5 := rfl
      hears := fun _ => ⟨rfl, hkind, _, settingsFilter_eq .sink hshort, h.hears.1, h.hears.2 hkind⟩
      sizes := fun _ => rfl
      sends := fun he => by cases he
      replies := fun he => by cases he }

theorem Asks.echo (key : PeerKey) (hkind : point.kind = .rtt) :
    ∃ s, peerMain (echoCommand point ctx runId (runTopics point runId)).argv = .ok s ∧
      Wired point runId ⟨key, echoCommand point ctx runId (runTopics point runId), true⟩ s := by
  obtain ⟨-, hshort, -⟩ := levels_data point h.run
  have hpublishes : point.kind ∈ publishKinds := by
    rw [hkind]
    decide
  have hfits : (echoCommand point ctx runId (runTopics point runId)).Fits :=
    { port := h.port, qos := h.isInt_qos, payload := isInt_default, replyQos := h.isInt_qos
      topics := h.isInt_topics, rate := isRate_zero
      sizes := fun n hn => absurd hn List.not_mem_nil }
  have hreply : (echoCommand point ctx runId (runTopics point runId)).reply =
      (runTopics point runId).reply := by
    have hne : (runTopics point runId).reply ≠ "" := by
      intro hempty
      have hslash : '/' ∈ (runTopics point runId).reply.toList := by
        unfold runTopics
        rw [String.toList_append, String.toList_append]
        exact List.mem_append_right _ (by decide)
      rw [hempty] at hslash
      exact absurd hslash (by decide)
    simp [Command.reply, echoCommand, Option.filter, hne]
  refine ⟨_, h.accepts .echo hfits rfl rfl (fun _ => rfl) rfl
    fun he => (by cases he), ?_⟩
  exact
    { mode := rfl
      read := rfl
      topics := rfl
      rate := fun he => by cases he
      qos := rfl
      v5 := rfl
      hears := fun _ => ⟨rfl, hpublishes, _, settingsFilter_eq .echo hshort, h.hears.1,
        h.hears.2 hpublishes⟩
      sizes := fun he => by cases he
      sends := fun he => by cases he
      replies := fun _ => by
        refine ⟨by rw [hkind]; decide, rfl, ?_⟩
        show (echoCommand point ctx runId (runTopics point runId)).reply ∈ _
        rw [hreply, peerTopics, hkind]
        exact List.mem_singleton_self _ }

theorem Asks.source (key : PeerKey) {topic : String} (clientId : String) {rate : ℤ}
    (hrate : 0 ≤ rate ∧ rate < 2 ^ 64) (hshort : (utf8 topic).length ≤ 250)
    (hkind : point.kind ∈ receives)
    (htopics : peerTopics point (runTopics point runId) = namesOf topic point.topics) :
    ∃ s, peerMain (sourceCommand point ctx topic clientId rate).argv = .ok s ∧
      Wired point runId ⟨key, sourceCommand point ctx topic clientId rate, false⟩ s := by
  have hfits : (sourceCommand point ctx topic clientId rate).Fits :=
    { port := h.port, qos := h.isInt_qos, payload := h.payload, replyQos := isInt_zero
      topics := h.isInt_topics, rate := hrate
      sizes := fun n hn => absurd hn List.not_mem_nil }
  refine ⟨_, h.accepts .source hfits rfl rfl (fun he => by cases he) rfl
    fun he => (by cases he), ?_⟩
  exact
    { mode := rfl
      read := rfl
      topics := rfl
      rate := fun _ => Int.toNat_of_nonneg hrate.1
      qos := rfl
      v5 := rfl
      hears := fun hne => absurd rfl hne
      sizes := fun he => by cases he
      sends := fun _ => ⟨rfl, hkind, fun i hi => by
        rw [htopics]
        exact settingsName_eq .source hshort h.topics.2 hi⟩
      replies := fun he => by cases he }

end

/-- What the peers publish reaches the client, except where a duplex run has many topics. -/
theorem listens_iff {point : Point} {runId : String} (h : IsRunId runId)
    (hkind : point.kind ∈ receives) :
    (∀ t ∈ peerTopics point (runTopics point runId),
      Matches (topicFilter (listenTopic point (runTopics point runId))) (levels t)) ↔
      (point.kind = .duplex → point.topics ≤ 1) := by
  obtain ⟨hplain, -, -⟩ := levels_data point h
  obtain ⟨hreplyPlain, -, hreply⟩ := levels_reply point h
  unfold peerTopics listenTopic
  cases hk : point.kind with
  | pub | idle => rw [hk] at hkind; exact absurd hkind (by decide)
  | sub =>
    refine iff_of_true (fun t ht => ?_) (fun he => by cases he)
    simp only [reduceCtorEq, or_self, if_false]
    rw [append_slash_hash]
    exact matches_filterOf hplain ht
  | rtt =>
    refine iff_of_true (fun t ht => ?_) (fun he => by cases he)
    obtain rfl := List.mem_singleton.1 ht
    exact (matches_plain_iff hreplyPlain).2 rfl
  | duplex =>
    simp only [or_true, if_true, true_implies]
    constructor
    · intro hall
      by_contra hlt
      -- the first name is two levels below the reply topic
      have hn : 1 < point.topics := by omega
      have hmem : fanoutName (runTopics point runId).reply 0 ∈
          namesOf (runTopics point runId).reply point.topics := by
        unfold namesOf
        rw [if_pos hn]
        exact List.mem_map.2 ⟨0, List.mem_range.2 (by omega), rfl⟩
      have heq := (matches_plain_iff hreplyPlain).1 (hall _ hmem)
      rw [levels_fanoutName] at heq
      have hlength := congrArg List.length heq
      rw [List.length_append] at hlength
      simp at hlength
    · intro hle t ht
      unfold namesOf at ht
      rw [if_neg (by omega)] at ht
      obtain rfl := List.mem_singleton.1 ht
      exact (matches_plain_iff hreplyPlain).2 rfl

/-- The client does not hear itself. -/
theorem not_listens_to_itself {point : Point} {runId : String} (h : IsRunId runId)
    (hsends : point.kind ∈ publishKinds) (hreceives : point.kind ∈ receives) :
    ∀ t ∈ publishTopics point (runTopics point runId),
      ¬ Matches (topicFilter (listenTopic point (runTopics point runId))) (levels t) := by
  obtain ⟨-, -, w, hw, hdata⟩ := levels_data point h
  obtain ⟨hreplyPlain, -, hreply⟩ := levels_reply point h
  have hlisten : listenTopic point (runTopics point runId) =
      filterOf (runTopics point runId).reply 1 := by
    unfold listenTopic
    rw [if_pos]
    · rfl
    · cases hk : point.kind with
      | pub | idle => rw [hk] at hreceives; exact absurd hreceives (by decide)
      | sub => rw [hk] at hsends; exact absurd hsends (by decide)
      | rtt => exact .inl rfl
      | duplex => exact .inr rfl
  intro t ht
  rw [hlisten]
  rw [publishTopics_eq] at ht
  exact not_matches_of_ne hreplyPlain hreply hdata hw.symm ht

/-- **Every peer of a run is started, and the run is wired.**  The peer accepts its command line and
runs with the point's QoS, protocol, sizes, topics and rate; those that receive start before the
client, hear all that it publishes and no other peer; those that send start after it.  There is a
peer to receive when the client publishes, and one to send when it receives.  The client hears what
the peers publish, unless a duplex run has many topics, and never itself.  The run keeps the peers
by the keys of the plan. -/
theorem peerPlan_wired (point : Point) (ctx : PlanContext) (runId : String)
    (h : Asks point ctx runId) :
    (∀ p ∈ peerPlanCommands point ctx runId (runTopics point runId),
      ∃ s, peerMain p.command.argv = .ok s ∧ Wired point runId p s) ∧
    ((∃ p ∈ peerPlanCommands point ctx runId (runTopics point runId), p.command.mode ≠ "source") ↔
      point.kind ∈ publishKinds) ∧
    ((∃ p ∈ peerPlanCommands point ctx runId (runTopics point runId), p.command.mode ≠ "sink") ↔
      point.kind ∈ receives) ∧
    (point.kind ∈ receives →
      ((∀ t ∈ peerTopics point (runTopics point runId),
        Matches (topicFilter (listenTopic point (runTopics point runId))) (levels t)) ↔
          (point.kind = .duplex → point.topics ≤ 1)) ∧
      (point.kind ∈ publishKinds → ∀ t ∈ publishTopics point (runTopics point runId),
        ¬ Matches (topicFilter (listenTopic point (runTopics point runId))) (levels t))) ∧
    (peerPlanCommands point ctx runId (runTopics point runId)).map (fun p => (p.key, p.first)) =
      peerPlan point.kind := by
  obtain ⟨-, hdata, -⟩ := levels_data point h.run
  obtain ⟨-, hreply, -⟩ := levels_reply point h.run
  refine ⟨?_, ?_, ?_, fun hreceives => ⟨listens_iff h.run hreceives,
    fun hsends => not_listens_to_itself h.run hsends hreceives⟩,
    peerPlanCommands_keys point ctx runId _⟩
  · intro p hp
    unfold peerPlanCommands at hp
    cases hk : point.kind with
    | pub =>
      rw [hk] at hp
      obtain rfl := List.mem_singleton.1 hp
      exact h.sink .peer (by rw [hk]; decide)
    | sub =>
      rw [hk] at hp
      obtain rfl := List.mem_singleton.1 hp
      refine h.source .peer _ ?_ hdata (by rw [hk]; decide) (by rw [peerTopics, hk])
      split
      · exact h.rate
      · exact h.subOffer
    | rtt =>
      rw [hk] at hp
      obtain rfl := List.mem_singleton.1 hp
      exact h.echo .peer hk
    | duplex =>
      rw [hk] at hp
      obtain rfl | hp := List.mem_cons.1 hp
      · exact h.sink .peer (by rw [hk]; decide)
      · obtain rfl := List.mem_singleton.1 hp
        exact h.source .peerSource _ h.rate hreply (by rw [hk]; decide) (by rw [peerTopics, hk])
    | idle =>
      rw [hk] at hp
      cases hp
  · unfold peerPlanCommands
    cases point.kind <;> simp [publishKinds, sinkCommand, sourceCommand, echoCommand]
  · unfold peerPlanCommands
    cases point.kind <;> simp [receives, sinkCommand, sourceCommand, echoCommand]

/-- `duplex_qos1_fixed`. -/
def duplexPoint : Point :=
  { name := "duplex_qos1_fixed", kind := .duplex
    question := "Publishing and receiving 1,000 QoS 1 msgs/s each at once, what does it cost?"
    qos := 1, rate := 1000, suite := "extended" }

theorem peerPlan_wired_duplex :
    (∃ p ∈ peerPlanCommands duplexPoint ⟨"127.0.0.1", 11883, 60000⟩ "0123456789ab"
        (runTopics duplexPoint "0123456789ab"), p.command.mode ≠ "sink") ∧
      ∀ t ∈ peerTopics duplexPoint (runTopics duplexPoint "0123456789ab"),
        Matches (topicFilter (listenTopic duplexPoint (runTopics duplexPoint "0123456789ab")))
          (levels t) := by
  have h := peerPlan_wired duplexPoint ⟨"127.0.0.1", 11883, 60000⟩ "0123456789ab"
    { run := ⟨by unfold Plain; decide, by decide⟩
      qos := by decide
      topics := by decide
      payload := isInt_default
      port := by constructor <;> decide
      rate := by decide
      subOffer := by decide
      few := by decide
      sizes := by decide }
  exact ⟨h.2.2.1.2 (by decide), (h.2.2.2.1 (by decide)).1.2 (by decide)⟩

end Bench
