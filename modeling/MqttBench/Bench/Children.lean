import MqttBench.Bench.RunOnce
import MqttBench.Lib.Fallible
import MqttBench.Lib.PyText
import MqttBench.Peer.Stdio

/-!
# The pipes between the runner and its children

`ChildProcess` of `bench/runner.py`, the line that starts a run, and `emit` and `read_go` of the
worker.  Text is read as `str`; digits are ASCII.

* `goLine`, `readGo`, `ChildProcess.readLine`, `last` — the program.
* `readGo_goLine` — the worker reads the times that the runner wrote.
* `hears_messages` — the reader keeps the messages, in order, and passes over other lines.
* `peerDocOf_resultDoc` — what the record has of a peer is what the peer counted.
* `pipes_carry` — **everybody runs on one schedule, and the runner hears what its children
  say.**
-/

namespace Bench

open PyData NumberText PyText
open Peer (Config Login Outside Printed Quiet runPeer readSchedule printedOf resultDoc timesLine)

/-! ## The program -/

/-- `record["schedule"]`, its four times. -/
structure Times where
  tStart : ℤ
  tMeasure : ℤ
  tEnd : ℤ
  tStop : ℤ
  deriving DecidableEq

/-- `f"GO {t_start} {t_measure} {t_end} {t_stop}\n"`. -/
def goLine (t : Times) : List Char :=
  ['G', 'O', ' '] ++ (toString t.tStart).toList ++ ' ' :: (toString t.tMeasure).toList ++
    ' ' :: (toString t.tEnd).toList ++ ' ' :: (toString t.tStop).toList ++ ['\n']

/-- `read_go()` of the line; `none` for an exception. -/
def readGo (line : List Char) : Option Times :=
  match words isSpace line with
  | [go, a, b, c, d] =>
    if go = ['G', 'O'] then do
      pure ⟨← wordInt a, ← wordInt b, ← wordInt c, ← wordInt d⟩
    else none
  | _ => none

/-- `msg.get("event") == "ready"`, which only dictionaries have an answer to. -/
def isReady : Py → Option Bool
  | .dict es => some (match Dicts.get es "event" with
    | some v => v.eq (.str "ready")
    | none => false)
  | _ => none

/-- A child, as far as the reader thread has come. -/
structure ChildProcess where
  lines : List Py
  /-- `_ready`. -/
  ready : Bool
  /-- The reader thread has ended with an exception. -/
  failed : Bool

def ChildProcess.init : ChildProcess := ⟨[], false, false⟩

section

variable (float : List Char → ℚ) (mark : List Char)

/-- A round of `_read`; `mark` is `prefix`. -/
def ChildProcess.readLine (s : ChildProcess) (raw : List Char) : ChildProcess :=
  if s.failed then s
  else if mark.isPrefixOf (strip raw) then
    match loads float ((strip raw).drop mark.length) with
    | none => s
    | some msg =>
      match isReady msg with
      | none => { s with lines := s.lines ++ [msg], failed := true }
      | some ready => { s with lines := s.lines ++ [msg], ready := s.ready || ready }
  else s

/-- The lines of a pipe, with universal newlines. -/
def linesOf (text : List Char) : List (List Char) := text.splitOnP fun c => c = '\n' ∨ c = '\r'

/-- `_read`. -/
def ChildProcess.read (lines : List (List Char)) : ChildProcess :=
  lines.foldl (ChildProcess.readLine float mark) .init

end

/-- What `wait_ready` returns of the lines. -/
def ChildProcess.readyLine (s : ChildProcess) : Option Py :=
  s.lines.find? fun msg => isReady msg = some true

/-- `last()`. -/
def ChildProcess.last (s : ChildProcess) : Option Py :=
  (s.lines.filter fun msg => isReady msg ≠ some true).getLast?

/-- A line that `emit` writes. -/
def emitLine (F : FloatText) (msg : Py) : List Char := '@' :: '@' :: text F msg

/-- `doc.get(key)`. -/
def docGet (doc : Py) (key : String) : Option Py :=
  match doc with
  | .dict es => Dicts.get es key
  | _ => none

def docInt (doc : Py) (key : String) : Option ℤ :=
  match docGet doc key with
  | some (.int n) => some n
  | _ => none

/-- A histogram among the items of a document. -/
def docHist (doc : Py) (key : String) : Option Histogram.Hist := do
  let h ← docGet doc key
  let buckets ← match docGet h "buckets" with
    | some (.list bs) => bs.mapM fun
      | .list [.int i, .int n] => some (i.toNat, n.toNat)
      | _ => none
    | _ => none
  pure ⟨(← docInt h "count").toNat, (← docInt h "min_ns").toNat, (← docInt h "max_ns").toNat,
    (← docInt h "sum_ns").toNat, (← docInt h "negative").toNat, buckets⟩

/-- What the checks read of the document of a peer. -/
def peerDocOf (doc : Py) : Checks.PeerDoc where
  error := match docGet doc "error" with
    | some (.str error) => some error
    | _ => none
  sentTotal := docInt doc "sent_total"
  sentWindow := docInt doc "sent_window"
  ackedTotal := docInt doc "acked_total"
  receivedTotal := docInt doc "received_total"
  receivedWindow := docInt doc "received_window"
  echoedTotal := docInt doc "echoed_total"
  propsSeen := docInt doc "props_seen"
  sizeMismatch := docInt doc "size_mismatch"
  latency := docHist doc "latency"

/-! ## The schedule -/

theorem goLine_eq (a b c d : ℕ) : goLine ⟨a, b, c, d⟩ = timesLine ['G', 'O'] a b c d := by
  have htext : ∀ n : ℕ, (n : ℤ).repr.toList = Nat.toDigits 10 n := fun n => toList_toString n
  simp [goLine, timesLine, htext]

/-- **The worker reads the times that the runner wrote.** -/
theorem readGo_goLine {a b c d : ℕ} (ha : a < 2 ^ 64) (hb : b < 2 ^ 64) (hc : c < 2 ^ 64)
    (hd : d < 2 ^ 64) : readGo (goLine ⟨a, b, c, d⟩) = some ⟨a, b, c, d⟩ := by
  have hlength : ∀ {n : ℕ}, n < 2 ^ 64 → (Nat.toDigits 10 n).length ≤ digitLimit := fun hn =>
    (length_toDigits_le hn).trans (by decide)
  have hword : ∀ n, words isSpace (Nat.toDigits 10 n) = [Nat.toDigits 10 n] := fun n =>
    words_singleton Nat.toDigits_ne_nil fun c hc => by
      have hcode := toNat_of_mem_toString (v := (n : ℤ)) (c := c) (by rwa [toList_toString])
      exact isSpace_plain (by omega) (by omega)
  have hnewline : isSpace '\n' = true := by decide
  have hblank : isSpace ' ' = true := by decide
  have hwords : words isSpace (timesLine ['G', 'O'] a b c d) =
      [['G', 'O'], Nat.toDigits 10 a, Nat.toDigits 10 b, Nat.toDigits 10 c,
        Nat.toDigits 10 d] := by
    rw [timesLine, words_append_cons _ _ hblank, words_append_cons _ _ hblank,
      words_append_cons _ _ hblank, words_append_cons _ _ hblank, words_append_cons _ _ hnewline,
      hword, hword, hword, hword]
    rfl
  rw [goLine_eq, readGo, hwords]
  simp [wordInt_toDigits (hlength ha), wordInt_toDigits (hlength hb),
    wordInt_toDigits (hlength hc), wordInt_toDigits (hlength hd)]

/-! ## Messages -/

/-- The text of a dictionary, between its braces. -/
theorem spell_braces (F : FloatText) (gap : List Char) (es : List (String × Py)) :
    ∃ s, spell F gap (.dict es) = '\x7b' :: (s ++ ['\x7d']) := by
  have hitems : ∀ fs : List (String × Py), ∃ s, spellItems F gap fs = s ++ ['\x7d'] := by
    intro fs
    induction fs with
    | nil => exact ⟨[], by rw [spellItems]; rfl⟩
    | cons f fs ih =>
      obtain ⟨s, hs⟩ := ih
      refine ⟨',' :: (gap ++ (quote f.1 ++ (':' :: (gap ++ (spell F gap f.2 ++ s))))), ?_⟩
      rw [spellItems, hs]
      simp
  rw [spell]
  cases es with
  | nil => exact ⟨[], by rw [spellDict]; rfl⟩
  | cons e es =>
    obtain ⟨s, hs⟩ := hitems es
    refine ⟨quote e.1 ++ (':' :: (gap ++ (spell F gap e.2 ++ s))), ?_⟩
    rw [spellDict, hs]
    simp

section

variable {float : List Char → ℚ} {mark : List Char}

/-- A line with a message. -/
theorem ChildProcess.readLine_message {s : ChildProcess} (hs : s.failed = false)
    {raw body : List Char} (hraw : strip raw = mark ++ body) {es : List (String × Py)}
    (hbody : loads float body = some (.dict es)) : ∃ ready, isReady (.dict es) = some ready ∧
      s.readLine float mark raw =
        { s with lines := s.lines ++ [.dict es], ready := s.ready || ready } := by
  refine ⟨_, rfl, ?_⟩
  have hprefix : mark.isPrefixOf (mark ++ body) = true :=
    List.isPrefixOf_iff_prefix.2 ⟨body, rfl⟩
  rw [ChildProcess.readLine, if_neg (by simp [hs]), hraw, if_pos hprefix, List.drop_left, hbody]
  rfl

/-- A line without the mark, or without JSON behind it. -/
theorem ChildProcess.readLine_other {s : ChildProcess} {raw : List Char}
    (h : mark.isPrefixOf (strip raw) = true → loads float ((strip raw).drop mark.length) = none) :
    s.readLine float mark raw = s := by
  rw [ChildProcess.readLine]
  split
  · rfl
  split
  · next hmark => rw [h hmark]
  · rfl

end

/-- What a child writes on a line: a message, or anything else. -/
inductive Said
  | message (es : List (String × Py))
  | other (line : List Char)

def Said.line (F : FloatText) : Said → List Char
  | .message es => emitLine F (.dict es)
  | .other line => line

def Said.message? : Said → Option Py
  | .message es => some (.dict es)
  | .other _ => none

/-- A message that JSON can hold, or a line that does not look like one. -/
def Said.Clear (F : FloatText) (float : List Char → ℚ) : Said → Prop
  | .message es => Stored (.dict es) ∧ ∀ q ∈ (Py.dict es).floats, Reads F float q
  | .other line => ['@', '@'].isPrefixOf (strip line) = false

/-- A child that has said some messages. -/
def heard (messages : List Py) : ChildProcess :=
  ⟨messages, messages.any fun msg => isReady msg = some true, false⟩

theorem heard_append (messages : List Py) {es : List (String × Py)} {ready : Bool}
    (h : isReady (.dict es) = some ready) : heard (messages ++ [.dict es]) =
      { heard messages with
        lines := messages ++ [.dict es]
        ready := (heard messages).ready || ready } := by
  simp [heard, List.any_append, h]

/-- **The reader keeps the messages, in order, and passes over other lines.** -/
theorem hears_messages {F : FloatText} {float : List Char → ℚ} (said : List Said)
    (h : ∀ x ∈ said, x.Clear F float) :
    ChildProcess.read float ['@', '@'] (said.map (Said.line F)) =
      heard (said.filterMap Said.message?) := by
  induction said using List.reverseRecOn with
  | nil => rfl
  | append_singleton said x ih =>
    have hbefore := ih fun y hy => h y (List.mem_append_left _ hy)
    have hx := h x (List.mem_append_right _ (List.mem_singleton_self x))
    rw [ChildProcess.read] at hbefore ⊢
    rw [List.map_append, List.foldl_append, hbefore, List.filterMap_append]
    cases x with
    | message es =>
      obtain ⟨s, hs⟩ := spell_braces F [' '] es
      have htext : emitLine F (.dict es) = '@' :: ('@' :: ('\x7b' :: s) ++ ['\x7d']) := by
        rw [emitLine, ← spell_text, hs]
        rfl
      have hstrip : strip (emitLine F (.dict es)) = ['@', '@'] ++ text F (.dict es) := by
        rw [htext, strip_eq (by decide) (by decide), ← htext]
        rfl
      have hloads : loads float (text F (.dict es)) = some (.dict es) := by
        have hread := loads_spell F float
          (show ∀ c ∈ [' '], isBlank c = true by simp [isBlank]) hx.1 hx.2 no_blanks no_blanks
        rwa [List.nil_append, List.append_nil, spell_text] at hread
      obtain ⟨ready, hready, hstep⟩ :=
        ChildProcess.readLine_message (s := heard (said.filterMap Said.message?)) rfl hstrip hloads
      exact hstep.trans (heard_append _ hready).symm
    | other line =>
      have hskip : (heard (said.filterMap Said.message?)).readLine float ['@', '@'] line = _ :=
        ChildProcess.readLine_other fun hmark => absurd hmark (by rw [hx]; decide)
      rw [show [Said.other line].filterMap Said.message? = [] from rfl, List.append_nil]
      exact hskip

/-! ## The documents of the peers -/

theorem linesOf_line {line : List Char} (h : Printable line) (rest : List Char) :
    linesOf (line ++ '\n' :: rest) = line :: linesOf rest := by
  rw [linesOf, List.splitOnP_append_cons _ _ (by decide), List.splitOnP_eq_singleton]
  · rfl
  · intro c hc
    have hcode := h c hc
    rw [decide_eq_false_iff_not]
    rintro (rfl | rfl) <;> exact absurd hcode (by decide)

theorem mapM_buckets (bs : List (ℕ × ℕ)) :
    (bs.map fun b => Py.list [.int b.1, .int b.2]).mapM (m := Option) (fun
      | .list [.int i, .int n] => some (i.toNat, n.toNat)
      | _ => none) = some bs := by
  induction bs with
  | nil => rfl
  | cons b bs ih =>
    rw [List.map_cons, List.mapM_cons, ih]
    rfl

/-- **What the checks read of a peer is what it counted.** -/
theorem peerDocOf_resultDoc (p : Printed) : peerDocOf (resultDoc p) =
    { error := p.error, sentTotal := some p.sentTotal, sentWindow := some p.sentWindow
      ackedTotal := some p.ackedTotal, receivedTotal := some p.recvTotal
      receivedWindow := some p.recvWindow, echoedTotal := some p.echoedTotal
      propsSeen := some p.propsSeen, sizeMismatch := some p.sizeMismatch
      latency := some p.lat.print } := by
  have hbuckets := mapM_buckets p.lat.print.buckets
  have hlatency : docHist (resultDoc p) "latency" = some p.lat.print := by
    simp [docHist, resultDoc, Peer.latencyDoc, docGet, docInt, Dicts.get, List.find?, hbuckets]
  rw [peerDocOf, hlatency]
  simp [resultDoc, docGet, docInt, Dicts.get, List.find?]
  cases p.error <;> rfl

/-- A line of a child without a mark. -/
theorem ChildProcess.readLine_spell (float : List Char → ℚ) {s : ChildProcess}
    (hs : s.failed = false) (F : FloatText) {es : List (String × Py)} (hes : Stored (.dict es))
    (hfloats : (Py.dict es).floats = []) : ∃ ready, isReady (.dict es) = some ready ∧
      s.readLine float [] (spell F [] (.dict es)) =
        { s with lines := s.lines ++ [.dict es], ready := s.ready || ready } := by
  obtain ⟨inner, hinner⟩ := spell_braces F [] es
  have hstrip : strip (spell F [] (.dict es)) = [] ++ spell F [] (.dict es) := by
    rw [hinner, strip_eq (by decide) (by decide), List.nil_append]
  have hread := loads_spell F float no_blanks hes
    (fun q hq => absurd hq (by simp [hfloats])) no_blanks no_blanks
  rw [List.nil_append, List.append_nil] at hread
  exact ChildProcess.readLine_message hs hstrip hread

theorem isReady_resultDoc (p : Printed) : isReady (resultDoc p) = some false := by
  simp [isReady, resultDoc, Dicts.get, List.find?]

theorem readyLine_eq (F : FloatText) :
    Peer.readyLine = spell F [] (.dict [("event", .str "ready")]) := by
  have hquiet : quote "ready" = Peer.quoted "ready" := Peer.quote_of_quiet (by simp [Quiet])
  rw [← Peer.printFields_eq, Peer.readyLine, ← hquiet]
  · simp only [List.map_cons, List.map_nil, spell]
  · simp [Quiet]

/-- The messages on the lines that a peer may leave. -/
def peerLines (ready ended : Bool) (p : Printed) : List Py :=
  (if ready then [.dict [("event", .str "ready")]] else []) ++ if ended then [resultDoc p] else []

theorem isReady_ready : isReady (.dict [("event", .str "ready")]) = some true := by
  simp [isReady, Dicts.get, Py.eq]

theorem readyLine_peerLines (ready ended heard : Bool) (p : Printed) :
    (ChildProcess.mk (peerLines ready ended p) heard false).readyLine.isSome = ready := by
  have hresult := isReady_resultDoc p
  cases ready <;> cases ended <;>
    simp [ChildProcess.readyLine, peerLines, isReady_ready, hresult]

theorem last_peerLines (ready ended heard : Bool) (p : Printed) :
    (ChildProcess.mk (peerLines ready ended p) heard false).last =
      if ended then some (resultDoc p) else none := by
  have hresult := isReady_resultDoc p
  cases ready <;> cases ended <;> simp [ChildProcess.last, peerLines, isReady_ready, hresult]

/-- **The runner hears of a peer whether it was ready, and its last line.** -/
theorem hears_peer (float : List Char → ℚ) (cfg : Config) (login : Login) (out : Outside)
    (o : Peer.Outcome) (hquiet : ∀ error ∈ o.receiver.error, Quiet error) :
    ChildProcess.read float [] (linesOf (Peer.stdout cfg login out o)) =
      ⟨peerLines o.ready o.status.isSome (printedOf cfg login out o), o.ready, false⟩ := by
  have hempty : ∀ s : ChildProcess, s.readLine float [] [] = s := fun s =>
    ChildProcess.readLine_other fun _ => rfl
  have hready : ∀ s : ChildProcess, s.failed = false → s.readLine float [] Peer.readyLine =
      { s with
        lines := s.lines ++ [.dict [("event", .str "ready")]]
        ready := s.ready || true } := by
    intro s hs
    obtain ⟨ready, hready, hstep⟩ := ChildProcess.readLine_spell float hs
      FloatText.fraction (show Stored (.dict [("event", .str "ready")]) from
        .dict (by simp) (by simpa using .str _)) rfl
    rw [readyLine_eq FloatText.fraction, hstep, Option.some.inj (hready.symm.trans isReady_ready)]
  have hresult : ∀ s : ChildProcess, s.failed = false →
      s.readLine float [] (Peer.printResult (printedOf cfg login out o)) =
        { s with lines := s.lines ++ [resultDoc (printedOf cfg login out o)] } := by
    intro s hs
    obtain ⟨ready, hready, hstep⟩ := ChildProcess.readLine_spell float hs
      FloatText.fraction (Peer.stored_resultDoc (printedOf cfg login out o))
      (Peer.floats_resultDoc _)
    rw [Peer.printResult_eq FloatText.fraction hquiet]
    refine hstep.trans ?_
    rw [Option.some.inj (hready.symm.trans (isReady_resultDoc _)), Bool.or_false]
    rfl
  have hline : Printable Peer.readyLine := by
    rw [readyLine_eq FloatText.fraction]
    exact printable_spell _ printable_nil _
  have hprint : Printable (Peer.printResult (printedOf cfg login out o)) := by
    rw [Peer.printResult_eq FloatText.fraction hquiet]
    exact printable_spell _ printable_nil _
  have hnil : linesOf [] = [[]] := rfl
  rw [ChildProcess.read, Peer.stdout]
  cases o.ready <;> cases o.status.isSome <;>
    simp [linesOf_line hline, linesOf_line hprint, hnil, hempty, hready, hresult,
      ChildProcess.init, peerLines]

/-- What the checks should read of a peer. -/
def counted (r : Peer.Receiver) : Checks.PeerDoc where
  error := r.error
  sentTotal := some 0
  sentWindow := some 0
  ackedTotal := some 0
  receivedTotal := some r.recvTotal
  receivedWindow := some r.recvWindow
  echoedTotal := some r.echoedTotal
  propsSeen := some r.propsSeen
  sizeMismatch := some r.sizeMismatch
  latency := some r.lat.print

theorem peerDocOf_printed (cfg : Config) (login : Login) (out : Outside) (o : Peer.Outcome) :
    peerDocOf (resultDoc (printedOf cfg login out o)) = counted o.receiver :=
  peerDocOf_resultDoc _

/-- What the runner has of a peer that ended so: the lines that it left and no others, whether it
was ready, and as its last line what it counted. -/
structure Tells (float : List Char → ℚ) (cfg : Config) (login : Login) (out : Outside)
    (o : Peer.Outcome) (child : ChildProcess) : Prop where
  read : child = ChildProcess.read float [] (linesOf (Peer.stdout cfg login out o))
  kept : child.failed = false
  lines : child.lines = peerLines o.ready o.status.isSome (printedOf cfg login out o)
  ready : child.ready = o.ready
  readyLine : child.readyLine.isSome = o.ready
  last : child.last.map peerDocOf = if o.status.isSome then some (counted o.receiver) else none

/-- **Everybody runs on one schedule, and the runner hears what its children say.**  The worker
reads the runner's times, and every peer reads the same ones, so that its window is the
runner's.  A peer that runs on them is heard: whether it was ready, and as its last line
what it counted, if it came to an end.  Of a worker every message is heard, in order, whatever
its client library prints on lines of its own. -/
theorem pipes_carry (a b c d : ℕ) (ha : a < 2 ^ 64) (hb : b < 2 ^ 64) (hc : c < 2 ^ 64)
    (hd : d < 2 ^ 64) (float : List Char → ℚ) :
    readGo (goLine ⟨a, b, c, d⟩) = some ⟨a, b, c, d⟩ ∧
    (∀ now, ∃ s, readSchedule (goLine ⟨a, b, c, d⟩) now = some s ∧ s.tStart.toNat = a ∧
      s.tStop.toNat = d ∧
      ∀ cfg : Config, cfg.tMeasure = s.tMeasure → cfg.tEnd = s.tEnd →
        (∀ clock, Peer.inWindow cfg clock = decide (b ≤ clock.toNat ∧ clock.toNat < c)) ∧
        ∀ (login : Login) (cap : ℕ) (hcap : 0 < cap) (out : Outside),
          (∀ error ∈ (runPeer cfg login cap hcap out).receiver.error, Quiet error) →
          ∃ child, Tells float cfg login out (runPeer cfg login cap hcap out) child) ∧
    ∀ (F : FloatText) (said : List Said), (∀ x ∈ said, x.Clear F float) →
      ChildProcess.read float ['@', '@'] (said.map (Said.line F)) =
        heard (said.filterMap Said.message?) := by
  have htoNat : ∀ {n : ℕ}, n < 2 ^ 64 → (UInt64.ofNat n).toNat = n := fun hn =>
    UInt64.toNat_ofNat_of_lt' hn
  refine ⟨readGo_goLine ha hb hc hd, fun now => ?_, fun F said h => hears_messages said h⟩
  refine ⟨_, by rw [goLine_eq, Peer.readSchedule_go ha hb hc hd], htoNat ha, htoNat hd, ?_⟩
  intro cfg hmeasure hend
  refine ⟨fun clock => ?_, fun login cap hcap out hquiet => ⟨_, rfl, ?_, ?_, ?_, ?_, ?_⟩⟩
  · rw [Peer.inWindow, hmeasure, hend, Bool.decide_and]
    simp only [UInt64.le_iff_toNat_le, UInt64.lt_iff_toNat_lt, htoNat hb, htoNat hc]
  · rw [hears_peer float cfg login out _ hquiet]
  · rw [hears_peer float cfg login out _ hquiet]
  · rw [hears_peer float cfg login out _ hquiet]
  · rw [hears_peer float cfg login out _ hquiet]
    exact readyLine_peerLines _ _ _ _
  · rw [hears_peer float cfg login out _ hquiet, last_peerLines]
    split
    · rw [Option.map_some, peerDocOf_printed]
    · rfl

/-- A sink whose broker sends what `brokerChunks` has, and a worker whose client warns before it
is ready. -/
theorem pipes_carry_example :
    readGo (goLine ⟨0, 0, 10, 20⟩) = some ⟨0, 0, 10, 20⟩ ∧
      (∃ child, Tells (fun _ => 0) Peer.sinkV5 Peer.loginAs (Peer.outsideOf Peer.brokerChunks)
        (runPeer Peer.sinkV5 Peer.loginAs 32 (Nat.succ_pos 31) (Peer.outsideOf Peer.brokerChunks))
        child) ∧
      ChildProcess.read (fun _ => 0) ['@', '@']
        [['w', 'a', 'r', 'n'], emitLine FloatText.fraction (.dict [("event", .str "ready")])] =
        ⟨[.dict [("event", .str "ready")]], true, false⟩ := by
  have h := pipes_carry 0 0 10 20 (by decide) (by decide) (by decide) (by decide) fun _ => 0
  refine ⟨h.1, ?_, ?_⟩
  · obtain ⟨s, hs, -, -, htimes⟩ := h.2.1 0
    have hgo : readSchedule (goLine ⟨(0 : ℕ), (0 : ℕ), (10 : ℕ), (20 : ℕ)⟩) 0 =
        some ⟨0, 0, 10, 20⟩ := by
      rw [goLine_eq 0 0 10 20]
      exact Peer.readSchedule_go (by decide) (by decide) (by decide) (by decide) 0
    obtain rfl := Option.some.inj (hgo.symm.trans hs)
    have hnone : (runPeer Peer.sinkV5 Peer.loginAs 32 (Nat.succ_pos 31)
        (Peer.outsideOf Peer.brokerChunks)).receiver.error = none := by decide
    exact (htimes Peer.sinkV5 rfl rfl).2 Peer.loginAs 32 (Nat.succ_pos 31) _ (by simp [hnone])
  · refine (h.2.2 FloatText.fraction [.other ['w', 'a', 'r', 'n'],
      .message [("event", .str "ready")]] ?_).trans ?_
    · simp only [List.mem_cons, List.not_mem_nil, or_false, forall_eq_or_imp, forall_eq]
      have hother : ['@', '@'].isPrefixOf (strip ['w', 'a', 'r', 'n']) = false := by decide
      exact ⟨hother, .dict (by simp) (by simpa using .str _), fun q hq => nomatch hq⟩
    · simp [heard, List.filterMap, Said.message?, isReady_ready]

end Bench
