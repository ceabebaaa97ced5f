import MqttBench.Peer.Source
import MqttBench.Drive.Offer

/-!
# The pacing of the source

`topic_name` and `run_source` of `mqtt_peer.c` against the pacer of the Python harness.  The
counters are machine words; a tick that finds more owed than four ticks' worth skips the
rest.

* `runSource` — the program.
* `Keeps` — the invariant: counters, packet ids and topics after a number of PUBLISHes.
* `drain_spec` — how a tick's PUBLISHes are batched does not matter.
* `pacing_agrees` — **the source and the Python pacer make the same decisions.**
-/

namespace Peer

open Drive

/-! ## The program -/

/-- The bytes of a string, in UTF-8. -/
def utf8 (s : String) : List UInt8 := s.toUTF8.data.toList

/-- `snprintf(out, cap, …)`: the string in the buffer, of which the last byte is the zero. -/
def snprintf (cap : ℕ) (s : List UInt8) : List UInt8 := s.take (cap - 1)

/-- `%d`. -/
def percentD (n : ℤ) : List UInt8 := utf8 (toString n)

/-- `topic_name(out, cap, index)` under `g_topic` and `g_topics`. -/
def topicName (gTopic : List UInt8) (gTopics : ℤ) (cap : ℕ) (index : ℤ) : List UInt8 :=
  if gTopics ≤ 1 then snprintf cap gTopic
  else
    snprintf cap (gTopic ++ 0x2f :: (percentD (index.tdiv 10) ++ 0x2f :: percentD (index.tmod 10)))

/-- What a source is started with. -/
structure SourceConfig where
  v5 : Bool
  props : Bool
  qos : ℕ
  payload : ℕ
  gTopic : List UInt8
  gTopics : ℤ
  /-- `g_topics` is an `int`. -/
  gTopics_lt : gTopics < 2 ^ 31
  rate : UInt64
  tickUs : UInt64
  tStart : UInt64
  tMeasure : UInt64
  tEnd : UInt64

namespace SourceConfig

variable (cfg : SourceConfig)

/-- `ntpl`. -/
def ntpl : ℕ := if 1 < cfg.gTopics then cfg.gTopics.toNat else 1

/-- `tpl[i]`. -/
def tpl (i : ℕ) : PublishTemplate :=
  buildPublish cfg.v5 cfg.props (topicName cfg.gTopic cfg.gTopics 512 i) cfg.qos cfg.payload

/-- `max_len`. -/
def maxLen : ℕ :=
  (List.range cfg.ntpl).foldl (fun maxLen i => max maxLen (cfg.tpl i).pkt.length) 0

/-- `batch_max`. -/
def batchMax : UInt64 :=
  let batchMax := UInt64.ofNat (64 * 1024 / cfg.maxLen)
  if batchMax < 1 then 1 else batchMax

/-- `tick_ns`. -/
def tickNs : UInt64 := cfg.tickUs * 1000

/-- `max_due`. -/
def maxDue : UInt64 :=
  if cfg.rate ≠ 0 then cfg.rate * cfg.tickNs * 4 / 1000000000 + 1 else cfg.batchMax

/-- `in_window(now)`. -/
def inWindow (now : UInt64) : Bool := cfg.tMeasure ≤ now && now < cfg.tEnd

end SourceConfig

/-- The local variables of `run_source` and its counters; `wire` is what was written, packet
by packet. -/
structure Source where
  seq : UInt64
  pid : UInt16
  sent : UInt64
  skipped : UInt64
  next : UInt64
  sentTotal : UInt64
  sentWindow : UInt64
  wire : List (List UInt8)

/-- Their initial values. -/
def Source.init (cfg : SourceConfig) : Source := ⟨0, 0, 0, 0, cfg.tStart, 0, 0, []⟩

/-- A batch: the clock it reads and whether `write_all` fails. -/
structure Batch where
  stamp : UInt64
  fails : Bool

/-- A round of the loop: the clock it reads, and its batches. -/
structure SourceTick where
  now : UInt64
  batch : ℕ → Batch

/-- One copy of a template. -/
def Source.publish (cfg : SourceConfig) (stamp : UInt64) (s : Source) : Source :=
  let t := cfg.tpl (s.seq % UInt64.ofNat cfg.ntpl).toNat
  let pid := if t.pidOff ≠ 0 then if s.pid = 65535 then 1 else s.pid + 1 else s.pid
  { s with seq := s.seq + 1, pid, wire := s.wire ++ [t.patch pid stamp] }

/-- The packets of a batch. -/
def Source.copies (cfg : SourceConfig) (stamp : UInt64) (k : ℕ) (s : Source) : Source :=
  (List.range k).foldl (fun s _ => s.publish cfg stamp) s

/-- A batch of `k` packets that is written. -/
def Source.flush (cfg : SourceConfig) (stamp k : UInt64) (s : Source) : Source :=
  let s := s.copies cfg stamp k.toNat
  { s with
    sent := s.sent + k
    sentTotal := s.sentTotal + k
    sentWindow := if cfg.inWindow stamp then s.sentWindow + k else s.sentWindow }

/-- `k`. -/
def batchSize (batchMax due : UInt64) : UInt64 := if batchMax < due then batchMax else due

/-- The loop over the batches of a tick, from batch `b` on: the source, and whether it goes
on.  Nothing is written once nothing fits a batch, which does not happen. -/
def Source.drain (cfg : SourceConfig) (batchMax : UInt64) (batch : ℕ → Batch) (due : UInt64)
    (b : ℕ) (s : Source) : Source × Bool :=
  if h : due = 0 ∨ batchMax = 0 then (s, true)
  else if (batch b).fails then (s, false)
  else
    drain cfg batchMax batch (due - batchSize batchMax due) (b + 1)
      (s.flush cfg (batch b).stamp (batchSize batchMax due))
termination_by due.toNat
decreasing_by
  have hle : batchSize batchMax due ≤ due := by
    unfold batchSize
    split
    · next hlt => exact UInt64.le_of_lt hlt
    · exact UInt64.le_refl _
  have hpos : batchSize batchMax due ≠ 0 := by
    unfold batchSize
    split
    · exact fun h0 => h (.inr h0)
    · exact fun h0 => h (.inl h0)
  rw [UInt64.toNat_sub_of_le _ _ hle]
  have := UInt64.le_iff_toNat_le.1 hle
  have : (batchSize batchMax due).toNat ≠ 0 := fun h0 => hpos (UInt64.toNat_inj.1 h0)
  omega

/-- What is due in a tick that reads `now`; the product is taken in 128 bits. -/
def Source.owe (cfg : SourceConfig) (now : UInt64) (s : Source) : Source × UInt64 :=
  if cfg.rate ≠ 0 then
    let owed := UInt64.ofNat (cfg.rate.toNat * (now - cfg.tStart).toNat / 1000000000)
    let due := if s.sent + s.skipped < owed then owed - s.sent - s.skipped else 0
    if cfg.maxDue < due then ({ s with skipped := s.skipped + (due - cfg.maxDue) }, cfg.maxDue)
    else (s, due)
  else (s, cfg.batchMax)

/-- One round of the loop, with a batch limit. -/
def Source.tick (cfg : SourceConfig) (batchMax : UInt64) (t : SourceTick) (s : Source) :
    Source × Bool :=
  let (s, due) := s.owe cfg t.now
  match s.drain cfg batchMax t.batch due 0 with
  | (s, false) => (s, false)
  | (s, true) =>
    if cfg.rate ≠ 0 then
      let next := s.next + cfg.tickNs
      ({ s with next := if next < t.now then t.now + cfg.tickNs else next }, true)
    else (s, true)

/-- The loop of `run_source`, for as long as the rounds last. -/
def sourceLoop (cfg : SourceConfig) (batchMax : UInt64) : List SourceTick → Source → Source
  | [], s => s
  | t :: ticks, s =>
    if cfg.tEnd ≤ t.now then s
    else
      match s.tick cfg batchMax t with
      | (s, false) => s
      | (s, true) => sourceLoop cfg batchMax ticks s

/-- `run_source`. -/
def runSource (cfg : SourceConfig) (ticks : List SourceTick) : Source :=
  sourceLoop cfg cfg.batchMax ticks (.init cfg)

/-! ## What was written -/

/-- The packet id in use after `n` PUBLISHes. -/
def pidAfter (n : ℕ) : UInt16 := if n = 0 then 0 else echoId (n - 1)

theorem pidAfter_succ (n : ℕ) :
    (if pidAfter n = 65535 then 1 else pidAfter n + 1) = pidAfter (n + 1) := by
  cases n with
  | zero => rfl
  | succ n => exact (echoId_cyclic n).2.1.symm

section Wire

variable {cfg : SourceConfig}

theorem pidOff_tpl (cfg : SourceConfig) (i : ℕ) : (cfg.tpl i).pidOff ≠ 0 ↔ cfg.qos ≠ 0 := by
  unfold SourceConfig.tpl buildPublish
  by_cases h : cfg.qos = 0
  · simp [h]
  · simp [h]

/-- A template without a packet id takes any. -/
theorem patch_of_pidOff_eq_zero {t : PublishTemplate} (h : t.pidOff = 0) (pid pid' : UInt16)
    (stamp : UInt64) : t.patch pid stamp = t.patch pid' stamp := by
  unfold PublishTemplate.patch
  simp [h]

theorem toNat_mod_ntpl (cfg : SourceConfig) (seq : UInt64) :
    (seq % UInt64.ofNat cfg.ntpl).toNat = seq.toNat % cfg.ntpl := by
  have hlt : cfg.ntpl < 2 ^ 64 := by
    have := cfg.gTopics_lt
    unfold SourceConfig.ntpl
    split <;> omega
  rw [UInt64.toNat_mod, UInt64.toNat_ofNat_of_lt' hlt]

/-- What holds when `n` PUBLISHes have been made: the sequence and the packet id, and of
PUBLISH number `j` the topic and the packet id. -/
structure Wired (cfg : SourceConfig) (n : ℕ) (s : Source) : Prop where
  seq : s.seq.toNat = n
  pid : cfg.qos ≠ 0 → s.pid = pidAfter n
  length : s.wire.length = n
  wire : ∀ j < n, ∃ stamp, s.wire[j]? = some ((cfg.tpl (j % cfg.ntpl)).patch (echoId j) stamp)

/-- The fields that the copies of a batch leave alone. -/
structure SameCounters (s s' : Source) : Prop where
  sent : s'.sent = s.sent
  skipped : s'.skipped = s.skipped
  next : s'.next = s.next
  sentTotal : s'.sentTotal = s.sentTotal
  sentWindow : s'.sentWindow = s.sentWindow

theorem wired_init (cfg : SourceConfig) : Wired cfg 0 (.init cfg) where
  seq := rfl
  pid _ := rfl
  length := rfl
  wire _ h := absurd h (Nat.not_lt_zero _)

/-- **One copy** takes the next topic and the next packet id. -/
theorem Wired.publish {n : ℕ} {s : Source} (h : Wired cfg n s) (hn : n + 1 < 2 ^ 64)
    (stamp : UInt64) :
    Wired cfg (n + 1) (s.publish cfg stamp) ∧ SameCounters s (s.publish cfg stamp) := by
  have htopic : (s.seq % UInt64.ofNat cfg.ntpl).toNat = n % cfg.ntpl := by
    rw [toNat_mod_ntpl, h.seq]
  have hpid : cfg.qos ≠ 0 → (s.publish cfg stamp).pid = pidAfter (n + 1) := by
    intro hqos
    unfold Source.publish
    simp only [htopic, if_pos ((pidOff_tpl cfg _).2 hqos), h.pid hqos]
    exact pidAfter_succ n
  have hpacket : (s.publish cfg stamp).wire =
      s.wire ++ [(cfg.tpl (n % cfg.ntpl)).patch (echoId n) stamp] := by
    by_cases hqos : cfg.qos = 0
    · have hoff : (cfg.tpl (n % cfg.ntpl)).pidOff = 0 := by
        by_contra hne
        exact (pidOff_tpl cfg _).1 hne hqos
      unfold Source.publish
      simp only [htopic]
      rw [patch_of_pidOff_eq_zero hoff]
    · have hpid := hpid hqos
      unfold Source.publish at hpid ⊢
      simp only [htopic] at hpid ⊢
      rw [hpid]
      rfl
  refine ⟨⟨?_, hpid, ?_, ?_⟩, ⟨rfl, rfl, rfl, rfl, rfl⟩⟩
  · change (s.seq + 1).toNat = n + 1
    rw [UInt64.toNat_add, h.seq]
    exact Nat.mod_eq_of_lt hn
  · rw [hpacket, List.length_append, h.length]
    rfl
  · intro j hj
    rw [hpacket]
    rcases Nat.lt_succ_iff_lt_or_eq.1 hj with hlt | rfl
    · obtain ⟨stamp', hstamp⟩ := h.wire j hlt
      exact ⟨stamp', by rw [List.getElem?_append_left (by rw [h.length]; exact hlt), hstamp]⟩
    · exact ⟨stamp, by rw [List.getElem?_append_right (by rw [h.length]), h.length]; simp⟩

theorem SameCounters.trans {s s' s'' : Source} (h : SameCounters s s') (h' : SameCounters s' s'') :
    SameCounters s s'' :=
  ⟨h'.sent.trans h.sent, h'.skipped.trans h.skipped, h'.next.trans h.next,
    h'.sentTotal.trans h.sentTotal, h'.sentWindow.trans h.sentWindow⟩

theorem Wired.copies {n : ℕ} {s : Source} (h : Wired cfg n s) (stamp : UInt64) (k : ℕ)
    (hn : n + k < 2 ^ 64) :
    Wired cfg (n + k) (s.copies cfg stamp k) ∧ SameCounters s (s.copies cfg stamp k) := by
  induction k with
  | zero => exact ⟨h, ⟨rfl, rfl, rfl, rfl, rfl⟩⟩
  | succ k ih =>
    obtain ⟨hwired, hsame⟩ := ih (by omega)
    have hcopies : s.copies cfg stamp (k + 1) = (s.copies cfg stamp k).publish cfg stamp := by
      unfold Source.copies
      rw [List.range_succ, List.foldl_append]
      rfl
    obtain ⟨hwired', hsame'⟩ := hwired.publish (by omega) stamp
    rw [hcopies]
    exact ⟨hwired', hsame.trans hsame'⟩

/-! ## One tick -/

theorem toNat_batchSize (batchMax due : UInt64) :
    (batchSize batchMax due).toNat = min batchMax.toNat due.toNat := by
  unfold batchSize
  split
  · next hlt =>
    have := UInt64.lt_iff_toNat_lt.1 hlt
    omega
  · next hle =>
    have := mt UInt64.lt_iff_toNat_lt.2 hle
    omega

/-- What a tick's batches come to: `due` PUBLISHes more, counted in `sent` and in the total. -/
structure Drained (cfg : SourceConfig) (n : ℕ) (due : ℕ) (s s' : Source) : Prop where
  wired : Wired cfg (n + due) s'
  sent : s'.sent.toNat = s.sent.toNat + due
  skipped : s'.skipped = s.skipped
  sentTotal : s'.sentTotal.toNat = s.sentTotal.toNat + due

/-- **How the PUBLISHes of a tick are batched does not matter.** -/
theorem drain_spec {n : ℕ} {s : Source} (h : Wired cfg n s) (hsent : s.sent.toNat = n)
    (htotal : s.sentTotal.toNat = n) {batchMax : UInt64} (hmax : batchMax ≠ 0)
    (batch : ℕ → Batch) (hwrites : ∀ b, (batch b).fails = false) (due : UInt64) (b : ℕ)
    (hn : n + due.toNat < 2 ^ 64) :
    (s.drain cfg batchMax batch due b).2 = true ∧
      Drained cfg n due.toNat s (s.drain cfg batchMax batch due b).1 := by
  generalize hd : due.toNat = d at hn
  induction d using Nat.strong_induction_on generalizing n s due b with
  | _ d ih =>
    rw [Source.drain]
    by_cases h0 : due = 0
    · subst h0
      obtain rfl : d = 0 := hd.symm
      rw [dif_pos (.inl rfl)]
      exact ⟨rfl, h, rfl, rfl, rfl⟩
    · have hne : ¬ (due = 0 ∨ batchMax = 0) := not_or.2 ⟨h0, hmax⟩
      have hdpos : due.toNat ≠ 0 := fun hz => h0 (UInt64.toNat_inj.1 hz)
      have hmpos : batchMax.toNat ≠ 0 := fun hz => hmax (UInt64.toNat_inj.1 hz)
      rw [dif_neg hne, hwrites b, if_neg Bool.false_ne_true]
      obtain ⟨k, hk⟩ : ∃ k, batchSize batchMax due = k := ⟨_, rfl⟩
      have hksize : k.toNat = min batchMax.toNat due.toNat := by rw [← hk, toNat_batchSize]
      rw [hk]
      have hrest : (due - k).toNat = due.toNat - k.toNat :=
        UInt64.toNat_sub_of_le _ _ (UInt64.le_iff_toNat_le.2 (by omega))
      obtain ⟨hwired, hsame⟩ := h.copies (batch b).stamp k.toNat (by omega)
      have hwired' : Wired cfg (n + k.toNat) (s.flush cfg (batch b).stamp k) :=
        ⟨hwired.seq, hwired.pid, hwired.length, hwired.wire⟩
      have hsent' : (s.flush cfg (batch b).stamp k).sent.toNat = n + k.toNat := by
        change ((s.copies cfg (batch b).stamp k.toNat).sent + k).toNat = n + k.toNat
        rw [hsame.sent, UInt64.toNat_add, hsent]
        exact Nat.mod_eq_of_lt (by omega)
      have htotal' : (s.flush cfg (batch b).stamp k).sentTotal.toNat = n + k.toNat := by
        change ((s.copies cfg (batch b).stamp k.toNat).sentTotal + k).toNat = n + k.toNat
        rw [hsame.sentTotal, UInt64.toNat_add, htotal]
        exact Nat.mod_eq_of_lt (by omega)
      obtain ⟨hgoes, hdrained⟩ := ih (d - k.toNat) (by omega) hwired' hsent' htotal' (due - k)
        (b + 1) (by rw [hrest, hd]) (by omega)
      refine ⟨hgoes, ?_, ?_, ?_, ?_⟩
      · have hwired := hdrained.wired
        rwa [show n + k.toNat + (d - k.toNat) = n + d by omega] at hwired
      · rw [hdrained.sent, hsent', hsent]
        omega
      · exact hdrained.skipped.trans hsame.skipped
      · rw [hdrained.sentTotal, htotal', htotal]
        omega

end Wire

/-! ## What is owed -/

/-- What is owed at a reading of the clock. -/
def owedTotal (cfg : SourceConfig) (now : UInt64) : ℕ :=
  cfg.rate.toNat * (now.toNat - cfg.tStart.toNat) / 1000000000

/-- The offer as the Python harness has it. -/
def offerOf (cfg : SourceConfig) (hrate : cfg.rate ≠ 0) : Offer where
  rate := cfg.rate.toNat
  tStart := cfg.tStart.toNat
  tEnd := cfg.tEnd.toNat
  rate_pos := by
    have : cfg.rate.toNat ≠ 0 := fun h => hrate (UInt64.toNat_inj.1 h)
    omega

/-- The catch-up limit of the Python pacer, for a tick of `tick` nanoseconds. -/
def catchUp (o : Offer) (tick : ℤ) : ℤ := o.rate * tick * maxCatchupTicks / nsPerS + 1

section Owed

variable {cfg : SourceConfig} (hrate : cfg.rate ≠ 0)

theorem total_offerOf {now : UInt64} (h : cfg.tStart ≤ now) :
    (offerOf cfg hrate).total now.toNat = (owedTotal cfg now : ℤ) := by
  have hle := UInt64.le_iff_toNat_le.1 h
  unfold Offer.total owedTotal offerOf nsPerS
  simp only
  push_cast [Nat.cast_sub hle]
  rfl

/-- The limits agree. -/
theorem toNat_maxDue (hcatchup : cfg.rate.toNat * cfg.tickNs.toNat * 4 < 2 ^ 63) :
    (cfg.maxDue.toNat : ℤ) = catchUp (offerOf cfg hrate) cfg.tickNs.toNat := by
  have hmul : (cfg.rate * cfg.tickNs).toNat = cfg.rate.toNat * cfg.tickNs.toNat := by
    rw [UInt64.toNat_mul]
    exact Nat.mod_eq_of_lt (by omega)
  have hmul' : (cfg.rate * cfg.tickNs * 4).toNat = cfg.rate.toNat * cfg.tickNs.toNat * 4 := by
    rw [UInt64.toNat_mul, hmul, show (4 : UInt64).toNat = 4 from rfl]
    exact Nat.mod_eq_of_lt (by omega)
  have hdiv : (cfg.rate * cfg.tickNs * 4 / 1000000000).toNat =
      cfg.rate.toNat * cfg.tickNs.toNat * 4 / 1000000000 := by
    rw [UInt64.toNat_div, hmul', show (1000000000 : UInt64).toNat = 1000000000 from rfl]
  have hsum : cfg.maxDue.toNat = cfg.rate.toNat * cfg.tickNs.toNat * 4 / 1000000000 + 1 := by
    unfold SourceConfig.maxDue
    rw [if_pos hrate, UInt64.toNat_add, hdiv, show (1 : UInt64).toNat = 1 from rfl]
    exact Nat.mod_eq_of_lt (by omega)
  rw [hsum]
  unfold catchUp offerOf maxCatchupTicks nsPerS
  push_cast
  rfl

/-- The Python pacer has sent and skipped as much, and nothing was refused. -/
structure InStep (s : Source) (run : Run) : Prop where
  sent : run.sent = s.sent.toNat
  skipped : run.skipped = s.skipped.toNat
  rejected : run.rejected = 0

/-- **Both find the same due and skip the same**, and what is due and skipped is accounted
for. -/
theorem owe_spec (hcatchup : cfg.rate.toNat * cfg.tickNs.toNat * 4 < 2 ^ 63) {before now : UInt64}
    {s : Source} {run : Run} (h : InStep s run) (hnow : cfg.tStart ≤ now)
    (hbefore : s.sent.toNat + s.skipped.toNat = owedTotal cfg before)
    (hmono : owedTotal cfg before ≤ owedTotal cfg now) (howed : owedTotal cfg now < 2 ^ 63) :
    ∃ skipped : UInt64, ∃ due : UInt64,
      s.owe cfg now = ({ s with skipped }, due) ∧
      owedNow (offerOf cfg hrate) now.toNat run (catchUp (offerOf cfg hrate) cfg.tickNs.toNat) =
        ({ run with skipped := (skipped.toNat : ℤ) }, (due.toNat : ℤ)) ∧
      s.sent.toNat + skipped.toNat + due.toNat = owedTotal cfg now ∧
      due.toNat ≤ cfg.maxDue.toNat := by
  have hlimit := toNat_maxDue hrate hcatchup
  have hle := UInt64.le_iff_toNat_le.1 hnow
  -- The words hold what they count.
  have htotal : (UInt64.ofNat (cfg.rate.toNat * (now - cfg.tStart).toNat / 1000000000)).toNat =
      owedTotal cfg now := by
    rw [UInt64.toNat_sub_of_le _ _ hnow]
    exact UInt64.toNat_ofNat_of_lt' (lt_trans howed (by norm_num))
  have hsum : (s.sent + s.skipped).toNat = s.sent.toNat + s.skipped.toNat := by
    rw [UInt64.toNat_add]
    exact Nat.mod_eq_of_lt (by omega)
  obtain ⟨owed, hofNat⟩ : ∃ owed, UInt64.ofNat
    (cfg.rate.toNat * (now - cfg.tStart).toNat / 1000000000) = owed := ⟨_, rfl⟩
  rw [hofNat] at htotal
  obtain ⟨due, hdue⟩ : ∃ due, (if s.sent + s.skipped < owed then owed - s.sent - s.skipped
    else 0) = due := ⟨_, rfl⟩
  have hdueNat : due.toNat = owedTotal cfg now - owedTotal cfg before := by
    rw [← hdue, ← hbefore, ← htotal]
    split
    · next hlt =>
      have hlt := UInt64.lt_iff_toNat_lt.1 hlt
      have hfirst : (owed - s.sent).toNat = owed.toNat - s.sent.toNat :=
        UInt64.toNat_sub_of_le _ _ (UInt64.le_iff_toNat_le.2 (by omega))
      rw [UInt64.toNat_sub_of_le _ _ (UInt64.le_iff_toNat_le.2 (by omega)), hfirst]
      omega
    · next hge =>
      have hge := mt UInt64.lt_iff_toNat_lt.2 hge
      rw [UInt64.toNat_zero]
      omega
  have hpython : (offerOf cfg hrate).total now.toNat - run.sent - run.rejected - run.skipped =
      (due.toNat : ℤ) := by
    rw [total_offerOf hrate hnow, h.sent, h.skipped, h.rejected]
    omega
  have howe : s.owe cfg now = if cfg.maxDue < due then
      ({ s with skipped := s.skipped + (due - cfg.maxDue) }, cfg.maxDue) else (s, due) := by
    unfold Source.owe
    rw [if_pos hrate]
    simp only [hofNat, hdue]
  have hnow' : owedNow (offerOf cfg hrate) now.toNat run
      (catchUp (offerOf cfg hrate) cfg.tickNs.toNat) =
        if (cfg.maxDue.toNat : ℤ) < due.toNat then
          ({ run with skipped := run.skipped + (due.toNat - cfg.maxDue.toNat) },
            (cfg.maxDue.toNat : ℤ))
        else (run, (due.toNat : ℤ)) := by
    unfold owedNow
    rw [← Offer.total, hpython, ← hlimit]
  rw [howe, hnow']
  by_cases hclip : cfg.maxDue < due
  · have hclipNat := UInt64.lt_iff_toNat_lt.1 hclip
    have hskip : (s.skipped + (due - cfg.maxDue)).toNat =
        s.skipped.toNat + (due.toNat - cfg.maxDue.toNat) := by
      rw [UInt64.toNat_add, UInt64.toNat_sub_of_le _ _ (UInt64.le_iff_toNat_le.2 hclipNat.le)]
      exact Nat.mod_eq_of_lt (by omega)
    rw [if_pos hclip, if_pos (by exact_mod_cast hclipNat)]
    refine ⟨_, _, rfl, ?_, by omega, le_rfl⟩
    rw [hskip, h.skipped]
    push_cast [Nat.cast_sub hclipNat.le]
    rfl
  · have hclipNat := mt UInt64.lt_iff_toNat_lt.2 hclip
    rw [if_neg hclip, if_neg (by exact_mod_cast hclipNat)]
    refine ⟨s.skipped, due, rfl, ?_, by omega, by omega⟩
    rw [← h.skipped]

end Owed

/-! ## The Python pacer, for any tick -/

/-- One round of `pub_fixed_sync`, for any catch-up limit. -/
def pacerTick (o : Offer) (maxDue : ℤ) (t : Tick) (run : Run) : Run :=
  let (run, owed) := owedNow o t.now run maxDue
  let first := run.sent + run.rejected + run.skipped
  (List.range owed.toNat).foldl
    (fun run (j : ℕ) => publishSync run (first + j) (t.attempt j)) run

/-- The loop of `pub_fixed_sync`, for any tick and catch-up limit. -/
def pacerLoop (o : Offer) (tickNs maxDue : ℤ) : List Tick → Run → ℤ → Run × ℤ
  | [], run, next => (run, next)
  | t :: ticks, run, next =>
    if o.tEnd ≤ t.now then (run, next)
    else
      let run := pacerTick o maxDue t run
      let next := next + tickNs
      pacerLoop o tickNs maxDue ticks run (if next < t.now then t.now + tickNs else next)

/-- With a tick of a millisecond this is the loop of the harness. -/
theorem pacerLoop_eq_fixedLoop (o : Offer) (ticks : List Tick) (run : Run) (next : ℤ) :
    pacerLoop o Drive.tickNs (catchUp o Drive.tickNs) ticks run next =
      fixedLoop publishSync o ticks run next := by
  induction ticks generalizing run next with
  | nil => rfl
  | cons t ticks ih =>
    rw [pacerLoop, fixedLoop]
    split
    · rfl
    · exact ih _ _

/-- Publishes that are all taken are all sent. -/
theorem foldl_publishSync {t : Tick} (ht : ∀ j, (t.attempt j).accepted = true) (first : ℤ)
    (n : ℕ) (run : Run) :
    let run' := (List.range n).foldl
      (fun run (j : ℕ) => publishSync run (first + j) (t.attempt j)) run
    run'.sent = run.sent + n ∧ run'.skipped = run.skipped ∧ run'.rejected = run.rejected := by
  induction n with
  | zero => simp
  | succ n ih =>
    obtain ⟨hsent, hskipped, hrejected⟩ := ih
    rw [List.range_succ, List.foldl_append, List.foldl_cons, List.foldl_nil, publishSync,
      if_pos (ht n)]
    refine ⟨?_, hskipped, hrejected⟩
    simp only [hsent]
    push_cast
    ring

/-! ## Whole runs -/

/-- A round of the source and one of the pacer: they read the same clock, the source writes
all its batches and the library takes every message. -/
structure SameRound (t : SourceTick) (r : Tick) : Prop where
  now : r.now = t.now.toNat
  writes : ∀ b, (t.batch b).fails = false
  takes : ∀ j, (r.attempt j).accepted = true

/-- A round of the pacer like one of the source. -/
def pacerRound (t : SourceTick) : Tick := ⟨t.now.toNat, fun _ => ⟨t.now.toNat, true⟩⟩

theorem sameRound_pacerRound {t : SourceTick} (hwrites : ∀ b, (t.batch b).fails = false) :
    SameRound t (pacerRound t) := ⟨rfl, hwrites, fun _ => rfl⟩

/-- What holds when the clock last read was `now`. -/
structure Keeps (cfg : SourceConfig) (now : UInt64) (s : Source) : Prop where
  start : cfg.tStart ≤ now
  owed : s.sent.toNat + s.skipped.toNat = owedTotal cfg now
  total : s.sentTotal = s.sent
  wired : Wired cfg s.sent.toNat s

theorem keeps_init (cfg : SourceConfig) : Keeps cfg cfg.tStart (.init cfg) where
  start := UInt64.le_refl _
  owed := by
    unfold owedTotal Source.init
    simp
  total := rfl
  wired := wired_init cfg

theorem inStep_init (cfg : SourceConfig) : InStep (.init cfg) Run.init := ⟨rfl, rfl, rfl⟩

theorem owedTotal_mono (cfg : SourceConfig) {now now' : UInt64} (h : now ≤ now') :
    owedTotal cfg now ≤ owedTotal cfg now' := by
  have := UInt64.le_iff_toNat_le.1 h
  unfold owedTotal
  exact Nat.div_le_div_right (Nat.mul_le_mul_left _ (by omega))

/-- What one tick does: both stay in step, everything owed is accounted for, and no more is
sent than the limit. -/
structure Ticked (cfg : SourceConfig) (before : Source) (now : UInt64) (after : Source) (run : Run) :
    Prop where
  keeps : Keeps cfg now after
  inStep : InStep after run
  grows : before.sent.toNat ≤ after.sent.toNat
  limit : after.sent.toNat ≤ before.sent.toNat + cfg.maxDue.toNat

section Runs

variable {cfg : SourceConfig} (hrate : cfg.rate ≠ 0)
  (hcatchup : cfg.rate.toNat * cfg.tickNs.toNat * 4 < 2 ^ 63)

include hcatchup in
/-- **One tick**, whatever its batches. -/
theorem tick_spec {batchMax : UInt64} (hmax : batchMax ≠ 0) {before : UInt64} {s : Source}
    {run : Run} (h : Keeps cfg before s) (hstep : InStep s run) {t : SourceTick} {r : Tick}
    (hsame : SameRound t r) (hnow : before ≤ t.now) (howed : owedTotal cfg t.now < 2 ^ 63) :
    let o := offerOf cfg hrate
    (s.tick cfg batchMax t).2 = true ∧
      Ticked cfg s t.now (s.tick cfg batchMax t).1
        (pacerTick o (catchUp o cfg.tickNs.toNat) r run) := by
  intro o
  have hstart : cfg.tStart ≤ t.now := UInt64.le_trans h.start hnow
  obtain ⟨skipped, due, howe, hpython, hsum, hlimit⟩ :=
    owe_spec hrate hcatchup hstep hstart h.owed (owedTotal_mono cfg hnow) howed
  have hwired : Wired cfg s.sent.toNat { s with skipped } :=
    ⟨h.wired.seq, h.wired.pid, h.wired.length, h.wired.wire⟩
  obtain ⟨hgoes, hdrained⟩ := drain_spec (s := { s with skipped }) hwired rfl
    (by rw [h.total]) hmax t.batch hsame.writes due 0 (by omega)
  obtain ⟨s', hs'⟩ : ∃ s', Source.drain cfg batchMax t.batch due 0 { s with skipped } =
      (s', true) := ⟨_, Prod.ext rfl hgoes⟩
  rw [hs'] at hdrained
  have htick : s.tick cfg batchMax t =
      ({ s' with next := if s'.next + cfg.tickNs < t.now then t.now + cfg.tickNs
                         else s'.next + cfg.tickNs }, true) := by
    unfold Source.tick
    simp only [howe, hs']
    rw [if_pos hrate]
  have hsent : s'.sent.toNat = s.sent.toNat + due.toNat := hdrained.sent
  have hskipped : s'.skipped = skipped := hdrained.skipped
  -- The pacer makes as many calls, and all are taken.
  obtain ⟨first, hpacer⟩ : ∃ first : ℤ, pacerTick o (catchUp o cfg.tickNs.toNat) r run =
      (List.range due.toNat).foldl
        (fun run (j : ℕ) => publishSync run (first + j) (r.attempt j))
        { run with skipped := (skipped.toNat : ℤ) } := by
    unfold pacerTick
    rw [hsame.now, hpython]
    exact ⟨_, rfl⟩
  obtain ⟨hrunSent, hrunSkipped, hrunRejected⟩ := foldl_publishSync hsame.takes first due.toNat
    { run with skipped := (skipped.toNat : ℤ) }
  rw [← hpacer] at hrunSent hrunSkipped hrunRejected
  rw [htick]
  refine ⟨rfl, ⟨hstart, ?_, ?_, ?_⟩, ⟨?_, ?_, ?_⟩, ?_, ?_⟩
  · change s'.sent.toNat + s'.skipped.toNat = owedTotal cfg t.now
    rw [hskipped]
    omega
  · apply UInt64.toNat_inj.1
    change s'.sentTotal.toNat = s'.sent.toNat
    rw [hdrained.sentTotal, hdrained.sent]
    change s.sentTotal.toNat + _ = s.sent.toNat + _
    rw [h.total]
  · have hwired' := hdrained.wired
    rw [← hsent] at hwired'
    exact ⟨hwired'.seq, hwired'.pid, hwired'.length, hwired'.wire⟩
  · rw [hrunSent]
    change run.sent + _ = (s'.sent.toNat : ℤ)
    rw [hsent, hstep.sent]
    push_cast
    rfl
  · rw [hrunSkipped]
    change (skipped.toNat : ℤ) = (s'.skipped.toNat : ℤ)
    rw [hskipped]
  · rw [hrunRejected]
    exact hstep.rejected
  · change s.sent.toNat ≤ s'.sent.toNat
    omega
  · change s'.sent.toNat ≤ s.sent.toNat + cfg.maxDue.toNat
    omega

include hcatchup in
/-- **A whole run** keeps both in step, for any batch limit. -/
theorem loop_spec {batchMax : UInt64} (hmax : batchMax ≠ 0) {before : UInt64} {s : Source}
    {run : Run} (h : Keeps cfg before s) (hstep : InStep s run) {ticks : List SourceTick}
    {rounds : List Tick} (hsame : List.Forall₂ SameRound ticks rounds)
    (hclock : (before :: ticks.map SourceTick.now).Pairwise (· ≤ ·))
    (howed : ∀ t ∈ ticks, owedTotal cfg t.now < 2 ^ 63) (next : ℤ) :
    let o := offerOf cfg hrate
    let run' := (pacerLoop o cfg.tickNs.toNat (catchUp o cfg.tickNs.toNat) rounds run next).1
    InStep (sourceLoop cfg batchMax ticks s) run' ∧
      ∃ now ∈ before :: ticks.map SourceTick.now, Keeps cfg now (sourceLoop cfg batchMax ticks s) := by
  intro o
  induction hsame generalizing before s run next with
  | nil => exact ⟨hstep, before, List.mem_cons_self .., h⟩
  | @cons t r ticks rounds hround _ ih =>
    rw [sourceLoop, pacerLoop]
    have hend : o.tEnd ≤ r.now ↔ cfg.tEnd ≤ t.now := by
      rw [hround.now, UInt64.le_iff_toNat_le]
      exact Int.ofNat_le
    by_cases hstop : cfg.tEnd ≤ t.now
    · rw [if_pos hstop, if_pos (hend.2 hstop)]
      exact ⟨hstep, before, List.mem_cons_self .., h⟩
    · rw [if_neg hstop, if_neg (mt hend.1 hstop)]
      rw [List.map_cons, List.pairwise_cons] at hclock
      obtain ⟨hgoes, hticked⟩ := tick_spec hrate hcatchup hmax h hstep hround
        (hclock.1 _ (List.mem_cons_self ..)) (howed t (List.mem_cons_self ..))
      obtain ⟨s', hs'⟩ : ∃ s', s.tick cfg batchMax t = (s', true) := ⟨_, Prod.ext rfl hgoes⟩
      rw [hs'] at hticked ⊢
      obtain ⟨hrun, now, hnow, hkeeps⟩ := ih hticked.keeps hticked.inStep hclock.2
        (fun t' ht' => howed t' (List.mem_cons_of_mem _ ht')) _
      exact ⟨hrun, now, List.mem_cons_of_mem _ hnow, hkeeps⟩

end Runs

section Trajectory

variable {cfg : SourceConfig} {batchMax : UInt64}

theorem drain_goes_on {batch : ℕ → Batch} (hwrites : ∀ b, (batch b).fails = false)
    (due : UInt64) (b : ℕ) (s : Source) : (s.drain cfg batchMax batch due b).2 = true := by
  induction due, b, s using Source.drain.induct cfg batchMax batch with
  | case1 due b s hstop =>
    rw [Source.drain, dif_pos hstop]
  | case2 due b s hstop hfails =>
    exact absurd hfails (by rw [hwrites b]; exact Bool.false_ne_true)
  | case3 due b s hstop hfails ih =>
    rw [Source.drain, dif_neg hstop, if_neg hfails]
    exact ih

theorem tick_goes_on {t : SourceTick} (hwrites : ∀ b, (t.batch b).fails = false) (s : Source) :
    (s.tick cfg batchMax t).2 = true := by
  obtain ⟨owed, howed⟩ : ∃ owed, s.owe cfg t.now = owed := ⟨_, rfl⟩
  obtain ⟨s', hs'⟩ : ∃ s', owed.1.drain cfg batchMax t.batch owed.2 0 = (s', true) :=
    ⟨_, Prod.ext rfl (drain_goes_on hwrites _ _ _)⟩
  unfold Source.tick
  simp only [howed, hs']
  split <;> rfl

/-- One reading more is one tick more. -/
theorem sourceLoop_concat {before : List SourceTick} {t : SourceTick}
    (hend : ∀ t' ∈ before ++ [t], t'.now < cfg.tEnd)
    (hwrites : ∀ t' ∈ before ++ [t], ∀ b, (t'.batch b).fails = false) (s : Source) :
    sourceLoop cfg batchMax (before ++ [t]) s =
      ((sourceLoop cfg batchMax before s).tick cfg batchMax t).1 := by
  induction before generalizing s with
  | nil =>
    have hnow := hend t (List.mem_singleton_self t)
    obtain ⟨s', hs'⟩ : ∃ s', s.tick cfg batchMax t = (s', true) :=
      ⟨_, Prod.ext rfl (tick_goes_on (hwrites t (List.mem_singleton_self t)) s)⟩
    change sourceLoop cfg batchMax [t] s = (s.tick cfg batchMax t).1
    rw [sourceLoop, if_neg (UInt64.not_le.2 hnow), hs']
    rfl
  | cons first before ih =>
    have hnow := hend first (List.mem_cons_self ..)
    obtain ⟨s', hs'⟩ : ∃ s', s.tick cfg batchMax first = (s', true) :=
      ⟨_, Prod.ext rfl (tick_goes_on (hwrites first (List.mem_cons_self ..)) s)⟩
    rw [List.cons_append, sourceLoop, if_neg (UInt64.not_le.2 hnow), sourceLoop,
      if_neg (UInt64.not_le.2 hnow), hs']
    exact ih (fun t' ht' => hend t' (List.mem_cons_of_mem _ ht'))
      (fun t' ht' => hwrites t' (List.mem_cons_of_mem _ ht')) s'

end Trajectory

/-! ## The main result -/

theorem batchMax_ne_zero (cfg : SourceConfig) : cfg.batchMax ≠ 0 := by
  unfold SourceConfig.batchMax
  simp only
  split
  · exact fun h => absurd h (by decide)
  · next hge =>
    intro h0
    rw [h0] at hge
    exact hge (by decide)

/-- What the source has done when the pacer has done `run`: it has sent and skipped as much,
`sent_total` is `sent`, and PUBLISH number `j` was on topic `j % ntpl`, with packet id
`j % 65535 + 1` if it has one. -/
structure Paced (cfg : SourceConfig) (run : Run) (s : Source) : Prop where
  sent : (s.sent.toNat : ℤ) = run.sent
  skipped : (s.skipped.toNat : ℤ) = run.skipped
  rejected : run.rejected = 0
  sentTotal : s.sentTotal = s.sent
  length : s.wire.length = s.sent.toNat
  wire : ∀ j < s.sent.toNat, ∃ stamp,
    s.wire[j]? = some ((cfg.tpl (j % cfg.ntpl)).patch (echoId j) stamp)

theorem Paced.of_keeps {cfg : SourceConfig} {run : Run} {now : UInt64} {s : Source}
    (hstep : InStep s run) (h : Keeps cfg now s) : Paced cfg run s where
  sent := hstep.sent.symm
  skipped := hstep.skipped.symm
  rejected := hstep.rejected
  sentTotal := h.total
  length := h.wired.length
  wire := h.wired.wire

/-- **The source and the Python pacer make the same decisions.**  In rounds that read the same
non-decreasing clock, with sends that do not fail and a library that takes every message, the
source sends and skips what the pacer does; any other batch limit gives the same.  After a
round that reads `t.now` all that is owed by then is sent or skipped, and the round has sent no
more than the limit. -/
theorem pacing_agrees (cfg : SourceConfig) (hrate : cfg.rate ≠ 0)
    (hcatchup : cfg.rate.toNat * cfg.tickNs.toNat * 4 < 2 ^ 63) {ticks : List SourceTick}
    {rounds : List Tick} (hsame : List.Forall₂ SameRound ticks rounds)
    (hclock : (cfg.tStart :: ticks.map SourceTick.now).Pairwise (· ≤ ·))
    (howed : ∀ t ∈ ticks, owedTotal cfg t.now < 2 ^ 63) :
    let o := offerOf cfg hrate
    let run := (pacerLoop o cfg.tickNs.toNat (catchUp o cfg.tickNs.toNat) rounds Run.init
      o.tStart).1
    Paced cfg run (runSource cfg ticks) ∧
      (∀ batchMax ≠ 0, Paced cfg run (sourceLoop cfg batchMax ticks (.init cfg))) ∧
      ∀ before t, ticks = before ++ [t] → t.now < cfg.tEnd →
        (runSource cfg ticks).sent.toNat + (runSource cfg ticks).skipped.toNat =
          cfg.rate.toNat * (t.now.toNat - cfg.tStart.toNat) / 1000000000 ∧
        (runSource cfg before).sent ≤ (runSource cfg ticks).sent ∧
        (runSource cfg ticks).sent.toNat ≤
          (runSource cfg before).sent.toNat + cfg.maxDue.toNat := by
  intro o run
  have hpaced : ∀ batchMax ≠ 0, Paced cfg run (sourceLoop cfg batchMax ticks (.init cfg)) := by
    intro batchMax hmax
    obtain ⟨hrun, now, _, hkeeps⟩ := loop_spec hrate hcatchup hmax (keeps_init cfg)
      (inStep_init cfg) hsame hclock howed o.tStart
    exact Paced.of_keeps hrun hkeeps
  refine ⟨hpaced _ (batchMax_ne_zero cfg), hpaced, ?_⟩
  intro before t hticks hend
  subst hticks
  have hwrites : ∀ t' ∈ before ++ [t], ∀ b, (t'.batch b).fails = false :=
    ((List.forall₂_and_left _ _).1 (hsame.imp (fun t' r h => ⟨h.writes, h⟩))).1
  -- The rounds before the last, as the pacer would make them.
  have hsame' : List.Forall₂ SameRound before (before.map pacerRound) := by
    rw [List.forall₂_map_right_iff, List.forall₂_same]
    exact fun t' ht' => sameRound_pacerRound (hwrites t' (List.mem_append_left _ ht'))
  rw [List.map_append, ← List.cons_append, List.pairwise_append] at hclock
  obtain ⟨hclock, _, hlast⟩ := hclock
  have hlast : ∀ now ∈ cfg.tStart :: before.map SourceTick.now, now ≤ t.now := by
    intro now hnow
    exact hlast now hnow t.now (List.mem_singleton_self _)
  obtain ⟨hrun, now, hnow, hkeeps⟩ := loop_spec hrate hcatchup (batchMax_ne_zero cfg)
    (keeps_init cfg) (inStep_init cfg) hsame' hclock
    (fun t' ht' => howed t' (List.mem_append_left _ ht')) o.tStart
  have hconcat : runSource cfg (before ++ [t]) =
      ((runSource cfg before).tick cfg cfg.batchMax t).1 := by
    refine sourceLoop_concat ?_ hwrites _
    intro t' ht'
    rcases List.mem_append.1 ht' with hbefore | hlast'
    · exact UInt64.lt_of_le_of_lt (hlast t'.now
        (List.mem_cons_of_mem _ (List.mem_map_of_mem hbefore))) hend
    · rwa [List.mem_singleton.1 hlast']
  obtain ⟨_, hticked⟩ := tick_spec hrate hcatchup (batchMax_ne_zero cfg) hkeeps hrun
    (sameRound_pacerRound (hwrites t (List.mem_append_right _ (List.mem_singleton_self t))))
    (hlast now hnow) (howed t (List.mem_append_right _ (List.mem_singleton_self t)))
  rw [hconcat]
  exact ⟨hticked.keeps.owed, UInt64.le_iff_toNat_le.2 hticked.grows, hticked.limit⟩

/-- Three a second at QoS 1 on three topics, with ticks of a quarter of a second. -/
def slowSource : SourceConfig where
  v5 := false
  props := false
  qos := 1
  payload := 16
  gTopic := [0x74]
  gTopics := 3
  gTopics_lt := by decide
  rate := 3
  tickUs := 250000
  tStart := 0
  tMeasure := 0
  tEnd := 5000000000

/-- A round after a second, and one two seconds late. -/
def lateTicks : List SourceTick :=
  [⟨1000000000, fun _ => ⟨1000000000, false⟩⟩, ⟨3000000000, fun _ => ⟨3000000000, false⟩⟩]

/-- Three are sent, then four of six: two are skipped. -/
theorem pacing_agrees_late : (runSource slowSource lateTicks).sent.toNat = 7 ∧
    (runSource slowSource lateTicks).skipped.toNat = 2 ∧
    (runSource slowSource lateTicks).wire.length = 7 := by
  have hrate : slowSource.rate ≠ 0 := by decide
  have hsame : List.Forall₂ SameRound lateTicks (lateTicks.map pacerRound) :=
    .cons ⟨rfl, fun _ => rfl, fun _ => rfl⟩
      (.cons ⟨rfl, fun _ => rfl, fun _ => rfl⟩ .nil)
  have hpaced := (pacing_agrees slowSource hrate (by decide) hsame (by decide) (by decide)).1
  have hsent : (runSource slowSource lateTicks).sent.toNat = 7 :=
    Int.ofNat_inj.1 (hpaced.sent.trans rfl)
  have hskipped : (runSource slowSource lateTicks).skipped.toNat = 2 :=
    Int.ofNat_inj.1 (hpaced.skipped.trans rfl)
  exact ⟨hsent, hskipped, hpaced.length.trans hsent⟩

end Peer
