import MqttBench.Lib.JsonRead
import MqttBench.Peer.CommandLine
import MqttBench.Peer.Handshake

/-!
# What the peer reads from its parent and prints for it

`read_schedule` and `print_result` of the peer, and the standard output of `main`.  Text is
ASCII; `printf` cannot fail.

* `readSchedule`, `printResult`, `stdout` — the program.
* `readSchedule_go` — four times are read from a line that has them in decimal.
* `loads_printResult` — **the line of the result is JSON**: it is read back as a dictionary of
  the counters, whatever they are.
-/

namespace Peer

open NumberText PyData

/-! ## The program -/

/-- `t_start`, `t_measure`, `t_end` and `t_stop`. -/
structure Schedule where
  tStart : UInt64
  tMeasure : UInt64
  tEnd : UInt64
  tStop : UInt64
  deriving DecidableEq

/-- `fgets(line, size, stdin)`: up to a newline, and to the end of the buffer. -/
def fgets (size : ℕ) (input : List Char) : List Char :=
  let text := input.take (size - 1)
  text.takeWhile (· ≠ '\n') ++ (text.dropWhile (· ≠ '\n')).take 1

/-- `%llu` of `sscanf`. -/
def scanUnsigned (s : List Char) : Option (UInt64 × List Char) :=
  let s := s.dropWhile isSpace
  let unsigned := match s with
    | '-' :: s => s
    | '+' :: s => s
    | s => s
  if unsigned.takeWhile Char.isDigit = [] then none
  else some (UInt64.ofNat (strtoull s), unsigned.dropWhile Char.isDigit)

/-- `sscanf(line, "WORD %llu %llu %llu %llu", ...) == 4`. -/
def sscanfTimes (word line : List Char) : Option Schedule :=
  if word.isPrefixOf line then do
    let (a, s) ← scanUnsigned (line.drop word.length)
    let (b, s) ← scanUnsigned s
    let (c, s) ← scanUnsigned s
    let (d, _) ← scanUnsigned s
    pure ⟨a, b, c, d⟩
  else none

/-- `read_schedule()`, with the clock that `GO_REL` reads; `none` is -1. -/
def readSchedule (input : List Char) (now : UInt64) : Option Schedule :=
  if input = [] then none
  else
    let line := fgets 256 input
    match sscanfTimes ['G', 'O'] line with
    | some t => some t
    | none =>
      match sscanfTimes ['G', 'O', '_', 'R', 'E', 'L'] line with
      | some t => some ⟨now + t.tStart * 1000000, now + t.tMeasure * 1000000,
          now + t.tEnd * 1000000, now + t.tStop * 1000000⟩
      | none => none

/-- The globals that `print_result` prints. -/
structure Printed where
  mode : PeerMode
  v5 : Bool
  qos : ℤ
  error : Option String
  tMeasure : UInt64
  tEnd : UInt64
  sentTotal : ℕ
  sentWindow : ℕ
  ackedTotal : ℕ
  recvTotal : ℕ
  recvWindow : ℕ
  echoedTotal : ℕ
  echoAcks : ℕ
  propsSeen : ℕ
  sizeMismatch : ℕ
  lat : Latency

/-- `\"%s\"`. -/
def quoted (s : String) : List Char := '\x22' :: (s.toList ++ ['\x22'])

/-- `\"name\":`. -/
def field (name : String) : List Char := quoted name ++ [':']

/-- `%llu`. -/
def unsigned (n : ℕ) : List Char := (n : ℤ).repr.toList

/-- Commas between fields. -/
def printFields (fields : List (String × List Char)) : List Char :=
  '\x7b' :: ([','].intercalate (fields.map fun f => field f.1 ++ f.2) ++ ['\x7d'])

/-- `[%d,%llu]` for each bucket, with commas between them. -/
def printBuckets (bs : List (ℕ × ℕ)) : List Char :=
  '[' :: ([','].intercalate (bs.map fun b =>
    '[' :: (unsigned b.1 ++ ',' :: (unsigned b.2 ++ [']']))) ++ [']'])

/-- The latency object of `print_result()`. -/
def printLatency (h : Bench.Histogram.Hist) : List Char :=
  printFields [("count", unsigned h.count), ("min_ns", unsigned h.minNs),
    ("max_ns", unsigned h.maxNs), ("sum_ns", unsigned h.sumNs),
    ("negative", unsigned h.negative), ("buckets", printBuckets h.buckets)]

/-- The line of `print_result()`. -/
def printResult (p : Printed) : List Char :=
  printFields [("role", quoted p.mode.word),
    ("protocol", quoted (if p.v5 then "MQTTv5" else "MQTTv311")), ("qos", p.qos.repr.toList),
    ("error", match p.error with
      | some error => quoted error
      | none => ['n', 'u', 'l', 'l']),
    ("window_ns", unsigned (p.tEnd - p.tMeasure).toNat), ("sent_total", unsigned p.sentTotal),
    ("sent_window", unsigned p.sentWindow), ("acked_total", unsigned p.ackedTotal),
    ("received_total", unsigned p.recvTotal), ("received_window", unsigned p.recvWindow),
    ("echoed_total", unsigned p.echoedTotal), ("echo_acks", unsigned p.echoAcks),
    ("props_seen", unsigned p.propsSeen), ("size_mismatch", unsigned p.sizeMismatch),
    ("latency", printLatency p.lat.print)]

/-! ## The document -/

/-- What `fail` writes into the line has to stay a string of JSON. -/
def Quiet (s : String) : Prop :=
  ∀ c ∈ s.toList, 32 ≤ c.toNat ∧ c.toNat ≤ 126 ∧ c ≠ '\x22' ∧ c ≠ '\\'

instance (s : String) : Decidable (Quiet s) :=
  inferInstanceAs (Decidable (∀ c ∈ s.toList, 32 ≤ c.toNat ∧ c.toNat ≤ 126 ∧ c ≠ '\x22' ∧ c ≠ '\\'))

/-- The latency object, as a dictionary. -/
def latencyDoc (h : Bench.Histogram.Hist) : Py :=
  .dict [("count", .int h.count), ("min_ns", .int h.minNs), ("max_ns", .int h.maxNs),
    ("sum_ns", .int h.sumNs), ("negative", .int h.negative),
    ("buckets", .list (h.buckets.map fun b => .list [.int b.1, .int b.2]))]

/-- The line of `print_result`, as a dictionary. -/
def resultDoc (p : Printed) : Py :=
  .dict [("role", .str p.mode.word), ("protocol", .str (if p.v5 then "MQTTv5" else "MQTTv311")),
    ("qos", .int p.qos), ("error", match p.error with
      | some error => .str error
      | none => .none),
    ("window_ns", .int (p.tEnd - p.tMeasure).toNat), ("sent_total", .int p.sentTotal),
    ("sent_window", .int p.sentWindow), ("acked_total", .int p.ackedTotal),
    ("received_total", .int p.recvTotal), ("received_window", .int p.recvWindow),
    ("echoed_total", .int p.echoedTotal), ("echo_acks", .int p.echoAcks),
    ("props_seen", .int p.propsSeen), ("size_mismatch", .int p.sizeMismatch),
    ("latency", latencyDoc p.lat.print)]

theorem quote_of_quiet {s : String} (h : Quiet s) : quote s = quoted s := by
  have hescape : s.toList.flatMap escape = s.toList := by
    have hplain : ∀ c ∈ s.toList, escape c = [c] := by
      intro c hc
      obtain ⟨hlo, hhi, hquote, hslash⟩ := h c hc
      have hcontrol : ∀ d : Char, d.toNat < 32 → c ≠ d := by
        rintro d hd rfl
        omega
      rw [escape, if_neg hquote, if_neg hslash, if_neg (hcontrol _ (by decide)),
        if_neg (hcontrol _ (by decide)), if_neg (hcontrol _ (by decide)),
        if_neg (hcontrol _ (by decide)), if_neg (hcontrol _ (by decide)), if_pos ⟨hlo, hhi⟩]
    rw [List.flatMap_congr hplain]
    exact List.flatMap_singleton' _
  rw [quote, quoted, hescape]

theorem printFields_eq (F : FloatText) (es : List (String × Py))
    (h : ∀ k ∈ es.map Prod.fst, Quiet k) :
    printFields (es.map fun e => (e.1, spell F [] e.2)) = spell F [] (.dict es) := by
  rw [printFields, spell_dict, List.map_map]
  have hfield : ∀ e ∈ es, ((fun f => field f.1 ++ f.2) ∘ fun e => (e.1, spell F [] e.2)) e =
      quote e.1 ++ ':' :: spell F [] e.2 := by
    intro e he
    show field e.1 ++ spell F [] e.2 = _
    rw [field, quote_of_quiet (h e.1 (List.mem_map_of_mem he)), List.append_assoc,
      List.singleton_append]
  rw [List.map_congr_left hfield]

theorem printBuckets_eq (F : FloatText) (bs : List (ℕ × ℕ)) : printBuckets bs =
    spell F [] (.list (bs.map fun b => .list [.int b.1, .int b.2])) := by
  rw [printBuckets, spell_list, List.map_map]
  rfl

/-- The latency object is the text of the dictionary. -/
theorem printLatency_eq (F : FloatText) (h : Bench.Histogram.Hist) :
    printLatency h = spell F [] (latencyDoc h) := by
  rw [printLatency, latencyDoc, ← printFields_eq]
  · simp only [List.map_cons, List.map_nil, spell_int, unsigned, printBuckets_eq F]
  · simp [Quiet]

/-- The line is the text of the dictionary. -/
theorem printResult_eq (F : FloatText) {p : Printed} (h : ∀ error ∈ p.error, Quiet error) :
    printResult p = spell F [] (resultDoc p) := by
  have hmode : quoted p.mode.word = spell F [] (.str p.mode.word) := by
    have hquiet : Quiet p.mode.word := by cases p.mode <;> simp [Quiet, PeerMode.word]
    exact (quote_of_quiet hquiet).symm
  have hprotocol : ∀ s ∈ ["MQTTv5", "MQTTv311"], quoted s = spell F [] (.str s) := by
    intro s hs
    have hquiet : ∀ s ∈ ["MQTTv5", "MQTTv311"], Quiet s := by simp [Quiet]
    exact (quote_of_quiet (hquiet s hs)).symm
  have herror : (match p.error with
      | some error => quoted error
      | none => ['n', 'u', 'l', 'l']) = spell F [] (match p.error with
      | some error => .str error
      | none => .none) := by
    cases herror : p.error with
    | none => rfl
    | some error => exact (quote_of_quiet (h error herror)).symm
  rw [printResult, resultDoc, ← printFields_eq]
  · have hv5 : (if p.v5 then "MQTTv5" else "MQTTv311") ∈ ["MQTTv5", "MQTTv311"] := by
      split <;> simp
    simp only [List.map_cons, List.map_nil, hmode, hprotocol _ hv5, herror, spell_int, unsigned,
      printLatency_eq F]
  · simp [Quiet]

theorem stored_latencyDoc (h : Bench.Histogram.Hist) : Stored (latencyDoc h) := by
  refine .dict (by simp) ?_
  have hbuckets : ∀ x ∈ h.buckets.map (fun b => Py.list [.int b.1, .int b.2]), Stored x := by
    intro x hx
    obtain ⟨b, -, rfl⟩ := List.mem_map.1 hx
    refine .list fun y hy => ?_
    obtain rfl | hy := List.mem_cons.1 hy
    · exact .int _
    · obtain rfl := List.mem_singleton.1 hy
      exact .int _
  simp only [List.forall_mem_cons, List.not_mem_nil, false_imp_iff, implies_true, and_true]
  exact ⟨.int _, .int _, .int _, .int _, .int _, .list hbuckets⟩

theorem stored_resultDoc (p : Printed) : Stored (resultDoc p) := by
  refine .dict (by simp) ?_
  have herror : Stored (match p.error with
      | some error => .str error
      | none => .none) := by
    cases p.error with
    | none => exact .none
    | some error => exact .str error
  simp only [List.forall_mem_cons, List.not_mem_nil, false_imp_iff, implies_true, and_true]
  exact ⟨.str _, .str _, .int _, herror, .int _, .int _, .int _, .int _, .int _, .int _, .int _,
    .int _, .int _, .int _, stored_latencyDoc _⟩

theorem floats_buckets (bs : List (ℕ × ℕ)) :
    Py.floatsOf (bs.map fun b => .list [.int b.1, .int b.2]) = [] := by
  induction bs with
  | nil => rfl
  | cons b bs ih =>
    rw [List.map_cons, Py.floatsOf, ih]
    rfl

theorem floats_resultDoc (p : Printed) : (resultDoc p).floats = [] := by
  have hlatency : (latencyDoc p.lat.print).floats = [] := by
    simp [latencyDoc, Py.floats, Py.floatsIn, floats_buckets]
  cases herror : p.error <;>
    simp [resultDoc, Py.floats, Py.floatsIn, hlatency, herror]

/-- **The line of the result is JSON**, and no other value than the dictionary of the counters. -/
theorem loads_printResult (float : List Char → ℚ) {p : Printed}
    (h : ∀ error ∈ p.error, Quiet error) : loads float (printResult p) = some (resultDoc p) := by
  have hread := loads_spell FloatText.fraction float no_blanks
    (stored_resultDoc p) (fun q hq => absurd hq (by simp [floats_resultDoc p])) no_blanks no_blanks
  rwa [List.nil_append, List.append_nil, ← printResult_eq _ h] at hread

/-! ## The schedule -/

/-- A time in the line. -/
theorem scanUnsigned_toDigits {n : ℕ} (h : n < 2 ^ 64) {rest : List Char}
    (hrest : EndsNumber rest) :
    scanUnsigned (' ' :: (Nat.toDigits 10 n ++ rest)) = some (UInt64.ofNat n, rest) := by
  have htext : (toString (n : ℤ)).toList = Nat.toDigits 10 n := toList_toString n
  obtain ⟨c, s, hcs⟩ := List.exists_cons_of_ne_nil (Nat.toDigits_ne_nil (b := 10) (n := n))
  have hdigit : c.isDigit = true := isDigit_of_mem (n := n) (hcs ▸ List.mem_cons_self)
  have hspace : isSpace c = false :=
    (not_separator_of_mem (v := (n : ℤ)) (by rw [htext, hcs]; exact List.mem_cons_self)).1
  have hskip : (' ' :: (Nat.toDigits 10 n ++ rest)).dropWhile isSpace =
      Nat.toDigits 10 n ++ rest := by
    rw [List.dropWhile_cons_of_pos (by decide), hcs, List.cons_append,
      List.dropWhile_cons_of_neg (by simp [hspace])]
  have hvalue : strtoull (Nat.toDigits 10 n ++ rest) = n := by
    have hstrto := strto_append (n : ℤ) hrest
    rw [htext] at hstrto
    rw [strtoull, hstrto, if_neg (by simpa using h)]
    omega
  have hsign : (match Nat.toDigits 10 n ++ rest with
      | '-' :: s => s
      | '+' :: s => s
      | s => s) = Nat.toDigits 10 n ++ rest := by
    rw [hcs, List.cons_append]
    split
    · next heq =>
      rw [(List.cons.inj heq).1] at hdigit
      exact absurd hdigit (by decide)
    · next heq =>
      rw [(List.cons.inj heq).1] at hdigit
      exact absurd hdigit (by decide)
    · rfl
  have hlead := congrArg Prod.snd (leading_toDigits n hrest)
  have htake : (Nat.toDigits 10 n ++ rest).takeWhile Char.isDigit ≠ [] := by
    rw [hcs, List.cons_append, List.takeWhile_cons_of_pos hdigit]
    exact List.cons_ne_nil _ _
  unfold scanUnsigned
  simp only [hskip, hsign]
  rw [if_neg htake, hvalue]
  exact congrArg (fun left => some (UInt64.ofNat n, left)) hlead

/-- Four times behind a word, on a line of their own. -/
def timesLine (word : List Char) (a b c d : ℕ) : List Char :=
  word ++ ' ' :: (Nat.toDigits 10 a ++ ' ' :: (Nat.toDigits 10 b ++ ' ' :: (Nat.toDigits 10 c ++
    ' ' :: (Nat.toDigits 10 d ++ ['\n']))))

theorem endsNumber_blank (rest : List Char) : EndsNumber (' ' :: rest) := fun c hc => by
  rw [← Option.some.inj hc]
  rfl

theorem sscanfTimes_timesLine (word : List Char) {a b c d : ℕ} (ha : a < 2 ^ 64) (hb : b < 2 ^ 64)
    (hc : c < 2 ^ 64) (hd : d < 2 ^ 64) : sscanfTimes word (timesLine word a b c d) =
      some ⟨UInt64.ofNat a, UInt64.ofNat b, UInt64.ofNat c, UInt64.ofNat d⟩ := by
  have hnewline : EndsNumber ['\n'] := fun c hc => by
    rw [← Option.some.inj hc]
    rfl
  have hprefix : word.isPrefixOf (timesLine word a b c d) = true :=
    List.isPrefixOf_iff_prefix.2 ⟨_, rfl⟩
  rw [sscanfTimes, if_pos hprefix, timesLine, List.drop_left]
  simp only [scanUnsigned_toDigits ha (endsNumber_blank _),
    scanUnsigned_toDigits hb (endsNumber_blank _), scanUnsigned_toDigits hc (endsNumber_blank _),
    scanUnsigned_toDigits hd hnewline, Option.bind_eq_bind, Option.bind_some, Option.pure_def]

/-- A line that fits is read whole. -/
theorem fgets_line {size : ℕ} {text : List Char} (hline : '\n' ∉ text)
    (hfits : text.length + 1 < size) : fgets size (text ++ ['\n']) = text ++ ['\n'] := by
  have hall : ∀ c ∈ text, decide (c ≠ '\n') = true := fun c hc =>
    decide_eq_true fun heq => hline (heq ▸ hc)
  have htake : (text ++ ['\n']).take (size - 1) = text ++ ['\n'] :=
    List.take_of_length_le (by rw [List.length_append, List.length_singleton]; omega)
  simp only [fgets, htake]
  rw [List.takeWhile_append_of_pos hall, List.dropWhile_append_of_pos hall]
  simp

/-- **The peer reads the times of the line.** -/
theorem readSchedule_go {a b c d : ℕ} (ha : a < 2 ^ 64) (hb : b < 2 ^ 64) (hc : c < 2 ^ 64)
    (hd : d < 2 ^ 64) (now : UInt64) :
    readSchedule (timesLine ['G', 'O'] a b c d) now =
      some ⟨UInt64.ofNat a, UInt64.ofNat b, UInt64.ofNat c, UInt64.ofNat d⟩ := by
  have hlength : ∀ {n : ℕ}, n < 2 ^ 64 → (Nat.toDigits 10 n).length ≤ 20 := length_toDigits_le
  have hla := hlength ha
  have hlb := hlength hb
  have hlc := hlength hc
  have hld := hlength hd
  have hdigits : ∀ n, '\n' ∉ Nat.toDigits 10 n := fun n hn => absurd (isDigit_of_mem hn) (by decide)
  have hwhole : fgets 256 (timesLine ['G', 'O'] a b c d) = timesLine ['G', 'O'] a b c d := by
    have hline : timesLine ['G', 'O'] a b c d =
        (['G', 'O'] ++ ' ' :: (Nat.toDigits 10 a ++ ' ' :: (Nat.toDigits 10 b ++
          ' ' :: (Nat.toDigits 10 c ++ ' ' :: Nat.toDigits 10 d)))) ++ ['\n'] := by
      simp [timesLine]
    rw [hline]
    refine fgets_line ?_ ?_
    · simp [hdigits]
    · simp only [List.length_append, List.length_cons, List.length_nil]
      omega
  rw [readSchedule, if_neg (by simp [timesLine])]
  simp only [hwhole, sscanfTimes_timesLine _ ha hb hc hd]

/-! ## Standard output -/

/-- What `print_result` prints of a sink or an echo.  The times are zero before the schedule. -/
def printedOf (cfg : Config) (login : Login) (out : Outside) (o : Outcome) : Printed where
  mode := match cfg.mode with
    | .sink => .sink
    | .echo => .echo
  v5 := cfg.v5
  qos := login.qos
  error := o.receiver.error
  tMeasure := if o.ready ∧ out.scheduled then cfg.tMeasure else 0
  tEnd := if o.ready ∧ out.scheduled then cfg.tEnd else 0
  sentTotal := 0
  sentWindow := 0
  ackedTotal := 0
  recvTotal := o.receiver.recvTotal
  recvWindow := o.receiver.recvWindow
  echoedTotal := o.receiver.echoedTotal
  echoAcks := o.receiver.echoAcks
  propsSeen := o.receiver.propsSeen
  sizeMismatch := o.receiver.sizeMismatch
  lat := o.receiver.lat

/-- `{"event":"ready"}`. -/
def readyLine : List Char := printFields [("event", quoted "ready")]

/-- The standard output of `main`, as far as it came. -/
def stdout (cfg : Config) (login : Login) (out : Outside) (o : Outcome) : List Char :=
  (if o.ready then readyLine ++ ['\n'] else []) ++
    if o.status.isSome then printResult (printedOf cfg login out o) ++ ['\n'] else []

end Peer
