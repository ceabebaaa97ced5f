import MqttBench.Lib.NumberText

/-!
# The command line of the peer

`command` of `bench/peer.py` builds it, and `main` of `mqtt_peer.c` reads it with
`getopt_long` and `parse_sizes`.

* `Command.argv` — what the harness writes.
* `getoptLong`, `peerMain` — what the peer reads.
* `Command.settings` — what it is meant to run with.
* `peerMain_argv` — **the peer runs with the settings of the command, or says which of its
  limits is exceeded.**
-/

namespace Peer

open NumberText

/-! ## The harness -/

/-- The arguments of `command`. -/
structure Command where
  mode : String
  host : String
  port : ℤ
  topic : String
  qos : ℤ
  protocol : String
  clientId : String
  payload : ℤ := 256
  rate : ℤ := 0
  replyTopic : Option String := none
  replyQos : ℤ := 0
  topics : ℤ := 1
  properties : Bool := false
  sizes : List ℤ := []

/-- `reply_topic or f"{topic}/reply"`. -/
def Command.reply (c : Command) : String :=
  (c.replyTopic.filter (· ≠ "")).getD (c.topic ++ "/reply")

/-- The options that `command` gives in every mode. -/
def Command.common (c : Command) : List String :=
  ["--host", c.host, "--port", toString c.port, "--topic", c.topic, "--qos", toString c.qos,
    "--client-id", c.clientId]
  ++ (if c.protocol = "MQTTv5" then ["--v5"] else [])
  ++ (if 1 < c.topics then ["--topics", toString c.topics] else [])

/-- `command(mode, ...)`, behind the path of the program. -/
def Command.argv (c : Command) : List String :=
  c.mode :: (c.common
  ++ (if c.mode = "source" then
      ["--payload", toString c.payload, "--rate", toString c.rate]
        ++ if c.properties then ["--props"] else []
    else [])
  ++ (if c.mode = "sink" ∧ c.sizes ≠ [] then ["--sizes", ",".intercalate (c.sizes.map toString)]
    else [])
  ++ (if c.mode = "echo" then ["--reply-topic", c.reply, "--reply-qos", toString c.replyQos]
    else []))

/-! ## The standard library of the peer -/

/-- `isspace(c)`. -/
def isSpace (c : Char) : Bool := c == ' ' || ('\t' ≤ c && c ≤ '\r')

/-- The number that `strtol` and its kind find. -/
def strto (s : List Char) : ℤ := (scan (s.dropWhile isSpace)).1

/-- `atoi(s)`: a `long`, cut to an `int`. -/
def atoi (s : List Char) : ℤ := Int.bmod (max (-2 ^ 63) (min (strto s) (2 ^ 63 - 1))) (2 ^ 32)

/-- `strtoull(s, NULL, 10)`, and `strtoul(s, NULL, 10)`. -/
def strtoull (s : List Char) : ℕ :=
  if 2 ^ 64 ≤ (strto s).natAbs then 2 ^ 64 - 1 else (strto s % 2 ^ 64).toNat

/-- `opts`: the name, whether an argument is required, and the letter. -/
def opts : List (String × Bool × Char) :=
  [("host", true, 'h'), ("port", true, 'p'), ("topic", true, 't'), ("qos", true, 'q'),
    ("v5", false, '5'), ("client-id", true, 'i'), ("payload", true, 's'), ("rate", true, 'r'),
    ("tick-us", true, 'k'), ("reply-topic", true, 'R'), ("reply-qos", true, 'Q'),
    ("topics", true, 'T'), ("props", false, 'P'), ("sizes", true, 'S')]

/-- The option that a name stands for: the one of that name, or else the only one whose name
starts so. -/
def longOption (name : List Char) : Option (Bool × Char) :=
  match opts.find? fun o => o.1.toList = name with
  | some o => some o.2
  | none =>
    match opts.filter fun o => name.isPrefixOf o.1.toList with
    | [o] => some o.2
    | _ => none

/-! ## The peer -/

/-- `g_mode`, for a whole peer. -/
inductive PeerMode
  | sink
  | source
  | echo
  deriving DecidableEq

/-- The globals that the options set; `g_sizes` as far as `g_nsizes`. -/
structure Settings where
  mode : PeerMode
  host : String
  port : ℤ
  topic : String
  replyTopic : String
  clientId : Option String
  qos : ℤ
  replyQos : ℤ
  v5 : Bool
  payload : ℤ
  rate : ℕ
  tickUs : ℤ
  topics : ℤ
  props : Bool
  sizes : List ℕ
  deriving DecidableEq

/-- The globals before any option. -/
def Settings.init (mode : PeerMode) : Settings where
  mode := mode
  host := "127.0.0.1"
  port := 11883
  topic := "bench/t"
  replyTopic := "bench/reply"
  clientId := none
  qos := 0
  replyQos := 0
  v5 := false
  payload := 256
  rate := 0
  tickUs := 250
  topics := 1
  props := false
  sizes := []

/-- What `usage` prints. -/
def usage : String :=
  "usage: mqtt_peer sink|source|echo [--host H] [--port P] [--topic T] [--qos Q]\n" ++
  "                 [--v5] [--client-id ID] [--payload B] [--rate R] [--tick-us U]\n" ++
  "                 [--reply-topic T] [--reply-qos Q] [--topics N] [--props]\n" ++
  "                 [--sizes B,B,...]\n"

/-- `MAX_SIZES`. -/
def maxSizes : ℕ := 16

/-- The loop of `parse_sizes` over the tokens; `none` is -1. -/
def parseSizes (sizes : List ℕ) : List (List Char) → Option (List ℕ)
  | [] => some sizes
  | tok :: toks =>
    if sizes.length = maxSizes then none
    else parseSizes (sizes ++ [strtoull tok % 2 ^ 32]) toks

/-- The body of the loop over the options; an error is the text of an exit with 2. -/
def Settings.set (s : Settings) (c : Char) (optarg : String) : Except String Settings :=
  match c with
  | 'h' => .ok { s with host := optarg }
  | 'p' => .ok { s with port := atoi optarg.toList }
  | 't' => .ok { s with topic := optarg }
  | 'q' => .ok { s with qos := atoi optarg.toList }
  | '5' => .ok { s with v5 := true }
  | 'i' => .ok { s with clientId := some optarg }
  | 's' => .ok { s with payload := atoi optarg.toList }
  | 'r' => .ok { s with rate := strtoull optarg.toList }
  | 'k' =>
    .ok { s with tickUs := if atoi optarg.toList < 50 then 50 else atoi optarg.toList }
  | 'R' => .ok { s with replyTopic := optarg }
  | 'Q' => .ok { s with replyQos := atoi optarg.toList }
  | 'T' => .ok { s with topics := atoi optarg.toList }
  | 'P' => .ok { s with props := true }
  | 'S' =>
    -- `strtok(list, ",")`
    match parseSizes s.sizes (words (· == ',') optarg.toList) with
    | none => .error "at most 16 sizes\n"
    | some sizes => .ok { s with sizes }
  | _ => .error usage

/-- The loop over `getopt_long`.  What is no option is passed over, and `--` ends the
options. -/
def getoptLong (s : Settings) : List String → Except String Settings
  | [] => .ok s
  | arg :: args =>
    match arg.toList with
    | '-' :: '-' :: long =>
      if long = [] then .ok s
      else
        match longOption (long.takeWhile (· ≠ '=')), long.dropWhile (· ≠ '=') with
        | some (false, c), [] => do getoptLong (← s.set c "") args
        | some (true, c), _ :: value => do getoptLong (← s.set c (String.ofList value)) args
        | some (true, c), [] =>
          match args with
          | [] => .error usage
          | optarg :: args => do getoptLong (← s.set c optarg) args
        | _, _ => .error usage
    -- there are no short options
    | '-' :: _ :: _ => .error usage
    | _ => getoptLong s args

/-- The modes of `main`. -/
def PeerMode.ofWord : String → Option PeerMode
  | "sink" => some .sink
  | "source" => some .source
  | "echo" => some .echo
  | _ => none

/-- What `main` makes of its arguments, unless the first is `buckets`. -/
def peerMain : List String → Except String Settings
  | [] => .error usage
  | word :: args =>
    match PeerMode.ofWord word with
    | none => .error usage
    | some mode => do
      let s ← getoptLong (.init mode) args
      if s.qos < 0 ∨ 2 < s.qos ∨ s.replyQos < 0 ∨ 2 < s.replyQos then
        .error "QoS must be 0, 1 or 2\n"
      else if s.topics < 1 ∨ 10000 < s.topics then .error "--topics must be in 1..10000\n"
      else .ok s

/-! ## Numbers -/

/-- The numbers of an `int`. -/
def IsInt (v : ℤ) : Prop := -2 ^ 31 ≤ v ∧ v < 2 ^ 31

/-- A number has no white space and no comma. -/
theorem not_separator_of_mem {v : ℤ} {c : Char} (h : c ∈ (toString v).toList) :
    isSpace c = false ∧ (c == ',') = false := by
  have hcode := toNat_of_mem_toString h
  have hne : ∀ d : Char, c = d → c.toNat = d.toNat := fun d hd => congrArg Char.toNat hd
  have hle : c ≤ '\r' → c.toNat ≤ 13 := fun h => UInt32.le_iff_toNat_le.1 h
  unfold isSpace
  simp only [Bool.or_eq_false_iff, beq_eq_false_iff_ne, Bool.and_eq_false_iff,
    decide_eq_false_iff_not]
  refine ⟨⟨fun hc => ?_, .inr fun hc => ?_⟩, fun hc => ?_⟩
  · have := hne ' ' hc
    simp at this
    omega
  · have := hle hc
    omega
  · have := hne ',' hc
    simp at this
    omega

theorem strto_append (v : ℤ) {rest : List Char} (h : EndsNumber rest) :
    strto ((toString v).toList ++ rest) = v := by
  obtain ⟨c, s, hcs⟩ := List.exists_cons_of_ne_nil (toList_toString_ne_nil v)
  have hspace : isSpace c = false := (not_separator_of_mem (hcs ▸ List.mem_cons_self)).1
  have hscan := scan_toString v h
  unfold strto
  rw [hcs, List.cons_append] at hscan ⊢
  rw [List.dropWhile_cons_of_neg (by simp [hspace]), hscan]

theorem strto_toString (v : ℤ) : strto (toString v).toList = v := by
  simpa using strto_append v endsNumber_nil

theorem atoi_toString {v : ℤ} (h : IsInt v) : atoi (toString v).toList = v := by
  obtain ⟨hlo, hhi⟩ := h
  unfold atoi
  rw [strto_toString, min_eq_left (by omega), max_eq_right (by omega)]
  exact Int.bmod_eq_of_le (by omega) (by omega)

theorem strtoull_toString {v : ℤ} (h0 : 0 ≤ v) (h : v < 2 ^ 64) :
    strtoull (toString v).toList = v.toNat := by
  unfold strtoull
  rw [strto_toString, if_neg (by omega), Int.emod_eq_of_lt h0 h]

/-- **The sizes are read as long as there are not too many.** -/
theorem parseSizes_eq {sizes : List ℕ} (h : sizes.length ≤ maxSizes) (toks : List (List Char)) :
    parseSizes sizes toks =
      if sizes.length + toks.length ≤ maxSizes
      then some (sizes ++ toks.map fun tok => strtoull tok % 2 ^ 32) else none := by
  induction toks generalizing sizes with
  | nil => simp [parseSizes, h]
  | cons tok toks ih =>
    rw [parseSizes]
    by_cases hfull : sizes.length = maxSizes
    · rw [if_pos hfull, if_neg (by simp [hfull])]
    · rw [if_neg hfull, ih (by simp; omega)]
      have hlength : (sizes ++ [strtoull tok % 2 ^ 32]).length + toks.length =
          sizes.length + (tok :: toks).length := by
        simp only [List.length_append, List.length_cons, List.length_nil]
        omega
      rw [hlength, List.append_assoc, List.singleton_append, List.map_cons]

/-- The tokens of the list of sizes are the sizes. -/
theorem words_sizes (sizes : List ℤ) :
    words (· == ',') (",".intercalate (sizes.map toString)).toList =
      sizes.map fun n => (toString n).toList := by
  rw [String.toList_intercalate, List.map_map]
  refine words_intercalate rfl fun w hw => ?_
  obtain ⟨n, _, rfl⟩ := List.mem_map.1 hw
  exact ⟨toList_toString_ne_nil n, fun c hc => (not_separator_of_mem hc).2⟩

/-! ## Options -/

/-- The option that an argument names, when it has no value of its own. -/
def letter (arg : String) : Option (Bool × Char) :=
  match arg.toList with
  | '-' :: '-' :: long => if long = [] ∨ '=' ∈ long then none else longOption long
  | _ => none

theorem of_letter {arg : String} {o : Bool × Char} (h : letter arg = some o) :
    ∃ long, arg.toList = '-' :: '-' :: long ∧ long ≠ [] ∧ longOption long = some o ∧
      long.takeWhile (· ≠ '=') = long ∧ long.dropWhile (· ≠ '=') = [] := by
  unfold letter at h
  split at h
  · next long hlong =>
    split at h
    · cases h
    · next hne =>
      obtain ⟨hnil, heq⟩ := not_or.1 hne
      have hall : ∀ c ∈ long, decide (c ≠ '=') = true := fun c hc =>
        decide_eq_true (fun hceq => heq (hceq ▸ hc))
      refine ⟨long, hlong, hnil, h, ?_, ?_⟩
      · exact List.takeWhile_eq_self_iff.2 hall
      · exact List.dropWhile_eq_nil_iff.2 hall
  · cases h

/-- An option that requires an argument takes the next one. -/
theorem getoptLong_arg {arg : String} {c : Char} (h : letter arg = some (true, c)) (s : Settings)
    (optarg : String) (args : List String) :
    getoptLong s (arg :: optarg :: args) = s.set c optarg >>= fun s => getoptLong s args := by
  obtain ⟨long, harg, hnil, hoption, htake, hdrop⟩ := of_letter h
  rw [getoptLong]
  simp only [harg, hnil, if_false, htake, hdrop, hoption]

/-- An option without an argument. -/
theorem getoptLong_flag {arg : String} {c : Char} (h : letter arg = some (false, c)) (s : Settings)
    (args : List String) :
    getoptLong s (arg :: args) = s.set c "" >>= fun s => getoptLong s args := by
  obtain ⟨long, harg, hnil, hoption, htake, hdrop⟩ := of_letter h
  rw [getoptLong]
  simp only [harg, hnil, if_false, htake, hdrop, hoption]

/-- Arguments that are read as changes `f` of the settings. -/
def Reads (args : List String) (f : Settings → Settings) : Prop :=
  ∀ s rest, getoptLong s (args ++ rest) = getoptLong (f s) rest

theorem Reads.append {xs ys : List String} {f g : Settings → Settings} (hf : Reads xs f)
    (hg : Reads ys g) : Reads (xs ++ ys) (g ∘ f) := by
  intro s rest
  rw [List.append_assoc, hf, hg]
  rfl

theorem Reads.nil : Reads [] id := fun _ _ => rfl

theorem Reads.ite {p : Prop} [Decidable p] {xs : List String} {f : Settings → Settings}
    (h : Reads xs f) : Reads (if p then xs else []) (if p then f else id) := by
  split
  · exact h
  · exact .nil

theorem Reads.arg {arg optarg : String} {c : Char} {f : Settings → Settings}
    (h : letter arg = some (true, c)) (hset : ∀ s : Settings, s.set c optarg = .ok (f s)) :
    Reads [arg, optarg] f := by
  intro s rest
  show getoptLong s (arg :: optarg :: rest) = _
  rw [getoptLong_arg h, hset]
  rfl

theorem Reads.flag {arg : String} {c : Char} {f : Settings → Settings}
    (h : letter arg = some (false, c)) (hset : ∀ s : Settings, s.set c "" = .ok (f s)) :
    Reads [arg] f := by
  intro s rest
  show getoptLong s (arg :: rest) = _
  rw [getoptLong_flag h, hset]
  rfl

/-! ## Commands -/

/-- Every number of the command fits the type of its setting. -/
structure Command.Fits (c : Command) : Prop where
  port : IsInt c.port
  qos : IsInt c.qos
  payload : IsInt c.payload
  replyQos : IsInt c.replyQos
  topics : IsInt c.topics
  rate : 0 ≤ c.rate ∧ c.rate < 2 ^ 64
  sizes : ∀ n ∈ c.sizes, 0 ≤ n ∧ n < 2 ^ 32

/-- The settings that a command asks for. -/
def Command.settings (c : Command) (mode : PeerMode) : Settings where
  mode := mode
  host := c.host
  port := c.port
  topic := c.topic
  replyTopic := if mode = .echo then c.reply else "bench/reply"
  clientId := some c.clientId
  qos := c.qos
  replyQos := if mode = .echo then c.replyQos else 0
  v5 := c.protocol = "MQTTv5"
  payload := if mode = .source then c.payload else 256
  rate := if mode = .source then c.rate.toNat else 0
  tickUs := 250
  topics := max 1 c.topics
  props := mode = .source && c.properties
  sizes := if mode = .sink then c.sizes.map Int.toNat else []

/-- The word for a mode. -/
def PeerMode.word : PeerMode → String
  | .sink => "sink"
  | .source => "source"
  | .echo => "echo"

theorem PeerMode.ofWord_word (mode : PeerMode) : ofWord mode.word = some mode := by
  cases mode <;> rfl

/-- The settings that every mode is told of. -/
def Command.tell (c : Command) (s : Settings) : Settings :=
  { s with
    host := c.host
    port := c.port
    topic := c.topic
    qos := c.qos
    clientId := some c.clientId
    v5 := if c.protocol = "MQTTv5" then true else s.v5
    topics := if 1 < c.topics then c.topics else s.topics }

theorem reads_common {c : Command} (h : c.Fits) : Reads c.common c.tell := by
  have hhost : Reads ["--host", c.host] fun s => { s with host := c.host } :=
    .arg (c := 'h') (by decide) fun s => rfl
  have hport : Reads ["--port", toString c.port] fun s => { s with port := c.port } :=
    .arg (c := 'p') (by decide) fun s => by rw [Settings.set, atoi_toString h.port]
  have htopic : Reads ["--topic", c.topic] fun s => { s with topic := c.topic } :=
    .arg (c := 't') (by decide) fun s => rfl
  have hqos : Reads ["--qos", toString c.qos] fun s => { s with qos := c.qos } :=
    .arg (c := 'q') (by decide) fun s => by rw [Settings.set, atoi_toString h.qos]
  have hid : Reads ["--client-id", c.clientId] fun s => { s with clientId := some c.clientId } :=
    .arg (c := 'i') (by decide) fun s => rfl
  have hv5 : Reads ["--v5"] fun s => { s with v5 := true } := .flag (c := '5') (by decide) fun s => rfl
  have htopics : Reads ["--topics", toString c.topics] fun s => { s with topics := c.topics } :=
    .arg (c := 'T') (by decide) fun s => by rw [Settings.set, atoi_toString h.topics]
  have hall := (((((hhost.append hport).append htopic).append hqos).append hid).append
    (hv5.ite (p := c.protocol = "MQTTv5"))).append (htopics.ite (p := 1 < c.topics))
  intro s rest
  refine (hall s rest).trans (congrArg (fun s => getoptLong s rest) ?_)
  by_cases hp : c.protocol = "MQTTv5" <;> by_cases ht : 1 < c.topics <;>
    simp [Command.tell, hp, ht]

/-- What a source is told. -/
theorem reads_source {c : Command} (h : c.Fits) :
    Reads (["--payload", toString c.payload, "--rate", toString c.rate]
        ++ if c.properties then ["--props"] else [])
      fun s => { s with
        payload := c.payload
        rate := c.rate.toNat
        props := if c.properties then true else s.props } := by
  have hpayload : Reads ["--payload", toString c.payload]
      fun s => { s with payload := c.payload } :=
    .arg (c := 's') (by decide) fun s => by rw [Settings.set, atoi_toString h.payload]
  have hrate : Reads ["--rate", toString c.rate] fun s => { s with rate := c.rate.toNat } :=
    .arg (c := 'r') (by decide) fun s => by rw [Settings.set, strtoull_toString h.rate.1 h.rate.2]
  have hprops : Reads ["--props"] fun s => { s with props := true } :=
    .flag (c := 'P') (by decide) fun s => rfl
  have hall := (hpayload.append hrate).append (hprops.ite (p := c.properties = true))
  intro s rest
  refine (hall s rest).trans (congrArg (fun s => getoptLong s rest) ?_)
  cases hp : c.properties <;> simp

/-- What an echo is told. -/
theorem reads_echo {c : Command} (h : c.Fits) :
    Reads ["--reply-topic", c.reply, "--reply-qos", toString c.replyQos]
      fun s => { s with replyTopic := c.reply, replyQos := c.replyQos } := by
  have htopic : Reads ["--reply-topic", c.reply] fun s => { s with replyTopic := c.reply } :=
    .arg (c := 'R') (by decide) fun s => rfl
  have hqos : Reads ["--reply-qos", toString c.replyQos]
      fun s => { s with replyQos := c.replyQos } :=
    .arg (c := 'Q') (by decide) fun s => by rw [Settings.set, atoi_toString h.replyQos]
  exact htopic.append hqos

/-- What a sink is told: its sizes, unless there are too many. -/
theorem getoptLong_sizes {c : Command} (h : c.Fits) {s : Settings} (hs : s.sizes = []) :
    getoptLong s ["--sizes", ",".intercalate (c.sizes.map toString)] =
      if c.sizes.length ≤ maxSizes then .ok { s with sizes := c.sizes.map Int.toNat }
      else .error "at most 16 sizes\n" := by
  have hread : ∀ n ∈ c.sizes, strtoull (toString n).toList % 2 ^ 32 = n.toNat := by
    intro n hn
    obtain ⟨h0, hlt⟩ := h.sizes n hn
    rw [strtoull_toString h0 (by omega)]
    omega
  have hparse : parseSizes s.sizes (words (· == ',') (",".intercalate (c.sizes.map toString)).toList) =
      if c.sizes.length ≤ maxSizes then some (c.sizes.map Int.toNat) else none := by
    rw [words_sizes, hs, parseSizes_eq (Nat.zero_le _), List.length_nil, List.length_map, zero_add,
      List.nil_append, List.map_map]
    exact congrArg (fun l => if c.sizes.length ≤ maxSizes then some l else none)
      (List.map_congr_left hread)
  rw [getoptLong_arg (c := 'S') (by decide), Settings.set, hparse]
  by_cases hle : c.sizes.length ≤ maxSizes
  · rw [if_pos hle, if_pos hle]
    rfl
  · rw [if_neg hle, if_neg hle]
    rfl

theorem settings_eq (c : Command) (mode : PeerMode) :
    c.settings mode = { c.tell (.init mode) with
      replyTopic := if mode = .echo then c.reply else "bench/reply"
      replyQos := if mode = .echo then c.replyQos else 0
      payload := if mode = .source then c.payload else 256
      rate := if mode = .source then c.rate.toNat else 0
      props := mode = .source && c.properties
      sizes := if mode = .sink then c.sizes.map Int.toNat else [] } := by
  have htopics : max 1 c.topics = if 1 < c.topics then c.topics else 1 := by
    split <;> omega
  have hv5 : decide (c.protocol = "MQTTv5") = if c.protocol = "MQTTv5" then true else false := by
    split <;> rename_i h <;> simp only [h, decide_true, decide_false]
  unfold Command.settings
  rw [htopics, hv5]
  rfl

/-- The options of a command, behind its mode. -/
theorem getoptLong_argv {c : Command} (h : c.Fits) {mode : PeerMode} (hmode : c.mode = mode.word) :
    getoptLong (.init mode) c.argv.tail =
      if mode = .sink ∧ maxSizes < c.sizes.length then .error "at most 16 sizes\n"
      else .ok (c.settings mode) := by
  unfold Command.argv
  rw [List.tail_cons, hmode, settings_eq]
  cases mode with
  | sink =>
    simp only [PeerMode.word, String.reduceEq, if_false, List.append_nil, true_and,
      reduceCtorEq, if_true, decide_false, Bool.false_and]
    rw [reads_common h]
    by_cases hsizes : c.sizes = []
    · simp only [hsizes, ne_eq, not_true_eq_false, if_false]
      rfl
    · rw [if_pos hsizes, getoptLong_sizes h rfl]
      by_cases hle : c.sizes.length ≤ maxSizes
      · rw [if_pos hle, if_neg (by omega)]
        rfl
      · rw [if_neg hle, if_pos (by omega)]
  | source =>
    simp only [PeerMode.word, String.reduceEq, if_false, List.append_nil, false_and,
      reduceCtorEq, if_true, decide_true, Bool.true_and]
    have hread := ((reads_common h).append (reads_source h)) (.init .source) []
    rw [List.append_nil] at hread
    rw [hread]
    cases hp : c.properties <;> rfl
  | echo =>
    simp only [PeerMode.word, String.reduceEq, if_false, List.append_nil, false_and,
      reduceCtorEq, if_true, decide_false, Bool.false_and]
    have hread := ((reads_common h).append (reads_echo h)) (.init .echo) []
    rw [List.append_nil] at hread
    rw [hread]
    rfl

/-- **The peer runs with the settings of the command**, or says which of its limits is
exceeded. -/
theorem peerMain_argv {c : Command} (h : c.Fits) {mode : PeerMode} (hmode : c.mode = mode.word) :
    peerMain c.argv =
      if mode = .sink ∧ maxSizes < c.sizes.length then .error "at most 16 sizes\n"
      else if c.qos < 0 ∨ 2 < c.qos ∨ mode = .echo ∧ (c.replyQos < 0 ∨ 2 < c.replyQos) then
        .error "QoS must be 0, 1 or 2\n"
      else if 10000 < c.topics then .error "--topics must be in 1..10000\n"
      else .ok (c.settings mode) := by
  have hargv : c.argv = c.mode :: c.argv.tail := rfl
  have hqos : ((c.settings mode).qos < 0 ∨ 2 < (c.settings mode).qos ∨
      (c.settings mode).replyQos < 0 ∨ 2 < (c.settings mode).replyQos) ↔
        (c.qos < 0 ∨ 2 < c.qos ∨ mode = .echo ∧ (c.replyQos < 0 ∨ 2 < c.replyQos)) := by
    by_cases he : mode = .echo <;> simp [Command.settings, he]
  have htopics : ((c.settings mode).topics < 1 ∨ 10000 < (c.settings mode).topics) ↔
      10000 < c.topics := by
    simp only [Command.settings]
    omega
  rw [hargv, peerMain, hmode, PeerMode.ofWord_word]
  simp only
  rw [getoptLong_argv h hmode]
  by_cases hsizes : mode = .sink ∧ maxSizes < c.sizes.length
  · rw [if_pos hsizes, if_pos hsizes]
    rfl
  · rw [if_neg hsizes, if_neg hsizes]
    show (if (c.settings mode).qos < 0 ∨ _ then _ else _) = _
    simp only [hqos, htopics]

end Peer
