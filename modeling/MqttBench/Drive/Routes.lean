import Mathlib

/-!
# Publishing to routes

`routed_publish` of `bench/drive.py`: the publish function of points that spread over
several topics, attach properties or use a topic alias.  With an alias the first message
carries the topic, every later one the empty topic.  The library decides about a message
when it returns or, when its publish is awaited, at any time later; so calls and decisions
are the events of a run, and they interleave in any order.

* `spread_topics` — spread messages go round the topics.
* `exec_settles`, `Armed` — what decisions change, and the invariant from the moment on at
  which the broker has the alias.
* `aliasKept_iff` — **the alias is used exactly when the broker has it if and only if the
  first message is accepted before the second is published.**
-/

namespace Drive

/-! ## The program -/

/-- How the library answers one publish. -/
inductive Outcome
  /-- `publish(...).rc` of a synchronous adapter. -/
  | rc (code : ℤ)
  /-- What `publish_nowait` returns. -/
  | mid (mid : Option ℕ)
  /-- An awaited publish ends. -/
  | returned
  | raised

/-- The library took the message. -/
def Outcome.accepted : Outcome → Bool
  | .rc code => code = 0
  | .mid m => m.isSome
  | .returned => true
  | .raised => false

/-- The arguments of the published function. -/
structure Message where
  topic : String
  payload : List UInt8
  qos : ℕ

/-- A call of the library's publish.  `before` is a record for the statements: the earlier
calls that were accepted by then. -/
structure LibraryCall (P : Type*) where
  topic : String
  payload : List UInt8
  qos : ℕ
  properties : P
  before : List ℕ

/-- The state of the closures: `first[0]` and the counter behind `nxt`; and records of the
library's calls and of those accepted so far. -/
structure Routed (P : Type*) where
  first : Bool
  nxt : ℕ
  calls : List (LibraryCall P)
  accepted : List ℕ

variable {P : Type*}

def Routed.init : Routed P := ⟨true, 0, [], []⟩

/-- `publish(topic, payload, qos, properties=properties)`. -/
def Routed.library (s : Routed P) (topic : String) (m : Message) (properties : P) : Routed P :=
  { s with calls := s.calls ++ [⟨topic, m.payload, m.qos, properties, s.accepted⟩] }

/-- `publish_alias`; without a topic `topics[0]` raises. -/
def publishAlias (topics : List String) (properties : P) (s : Routed P) (m : Message) :
    Routed P :=
  if s.first then
    let s := { s with first := false }
    match topics.head? with
    | some topic => s.library topic m properties
    | none => s
  else s.library "" m properties

/-- `publish_spread`. -/
def publishSpread (topics : List String) (properties : P) (s : Routed P) (m : Message) :
    Routed P :=
  { s with nxt := s.nxt + 1 }.library (topics.getD (s.nxt % topics.length) "") m properties

/-- `publish_with_properties`. -/
def publishWithProperties (properties : P) (s : Routed P) (m : Message) : Routed P :=
  s.library m.topic m properties

/-- `routed_publish(publish, topics, properties, alias=alias)`. -/
def routedPublish (topics : List String) (properties : P) (topicAlias : Bool) :
    Routed P → Message → Routed P :=
  if topicAlias then publishAlias topics properties
  else if 1 < topics.length then publishSpread topics properties
  else publishWithProperties properties

/-- What happens in a run. -/
inductive RouteEvent
  /-- The returned function is called. -/
  | call (m : Message)
  /-- The library decides about its call number `call`. -/
  | settle (call : ℕ) (outcome : Outcome)

def RouteEvent.isCall : RouteEvent → Bool
  | .call _ => true
  | .settle _ _ => false

/-- The decisions before the next call. -/
def untilCall (events : List RouteEvent) : List RouteEvent := events.takeWhile fun e => !e.isCall

/-- The run from the next call on. -/
def fromCall (events : List RouteEvent) : List RouteEvent := events.dropWhile fun e => !e.isCall

/-- One event. -/
def Routed.step (publish : Routed P → Message → Routed P) (s : Routed P) : RouteEvent → Routed P
  | .call m => publish s m
  | .settle call outcome =>
    if outcome.accepted ∧ call < s.calls.length then { s with accepted := s.accepted ++ [call] }
    else s

/-- The state after some events. -/
def Routed.exec (publish : Routed P → Message → Routed P) (s : Routed P)
    (events : List RouteEvent) : Routed P :=
  events.foldl (Routed.step publish) s

theorem exec_append (publish : Routed P → Message → Routed P) (s : Routed P)
    (xs ys : List RouteEvent) :
    s.exec publish (xs ++ ys) = (s.exec publish xs).exec publish ys := List.foldl_append

/-! ## Spreading -/

/-- **Message `k` goes to topic `k mod n`**, whatever becomes of the others. -/
theorem spread_topics (topics : List String) (properties : P) (h : 1 < topics.length)
    (events : List RouteEvent) :
    let s := Routed.init.exec (routedPublish topics properties false) events
    s.nxt = s.calls.length ∧ s.calls.map (·.topic) =
      (List.range s.calls.length).map fun k => topics.getD (k % topics.length) "" := by
  have hroute : routedPublish topics properties false = publishSpread topics properties := by
    rw [routedPublish, if_neg (by decide), if_pos h]
  rw [hroute]
  induction events using List.reverseRecOn with
  | nil => exact ⟨rfl, rfl⟩
  | append_singleton events e ih =>
    simp only [exec_append] at ih ⊢
    generalize Routed.exec (publishSpread topics properties) Routed.init events = s at ih ⊢
    obtain ⟨hnxt, htopics⟩ := ih
    cases e with
    | call m =>
      change (publishSpread topics properties s m).nxt = _ ∧ _
      refine ⟨?_, ?_⟩
      · change s.nxt + 1 = (s.calls ++ [_]).length
        rw [hnxt, List.length_append]
        rfl
      · change (s.calls ++ [_]).map _ = (List.range (s.calls ++ [_]).length).map _
        rw [List.map_append, htopics, List.length_append, List.length_singleton, List.range_succ,
          List.map_append, ← hnxt]
        rfl
    | settle call outcome =>
      change (s.step (publishSpread topics properties) (.settle call outcome)).nxt = _ ∧ _
      rw [Routed.exec, List.foldl_cons, List.foldl_nil, Routed.step]
      split
      · exact ⟨hnxt, htopics⟩
      · exact ⟨hnxt, htopics⟩

/-! ## What should hold -/

/-- By the time of the call `c`, a call with `topics[0]` and the alias was accepted. -/
def Given (topics : List String) (properties : P) (s : Routed P) (c : LibraryCall P) : Prop :=
  ∃ k ∈ c.before, ∃ d, s.calls[k]? = some d ∧ topics.head? = some d.topic ∧
    d.properties = properties

/-- A call passes the empty topic when the broker has the alias, and only then. -/
def AliasKept (topics : List String) (properties : P) (s : Routed P) : Prop :=
  ∀ c ∈ s.calls, c.topic = "" ↔ Given topics properties s c

/-- There is a topic to alias, and the first message is accepted before the second one is
published. -/
def AcceptsFirst (topics : List String) (events : List RouteEvent) : Prop :=
  match fromCall events with
  | [] => True
  | _ :: later =>
    topics.head? ≠ some "" ∧
      ((∃ e ∈ later, e.isCall = true) → topics ≠ [] ∧
        ∃ outcome, outcome.accepted = true ∧ .settle 0 outcome ∈ untilCall later)

/-! ## Decisions -/

variable {publish : Routed P → Message → Routed P}

/-- The calls accepted by some events, when `n` calls were made before them. -/
def settled (n : ℕ) (events : List RouteEvent) : List ℕ :=
  events.filterMap fun
    | .settle call outcome => if outcome.accepted ∧ call < n then some call else none
    | .call _ => none

/-- **Decisions change nothing but what is accepted.** -/
theorem exec_settles (s : Routed P) {events : List RouteEvent}
    (h : ∀ e ∈ events, e.isCall = false) :
    s.exec publish events = { s with accepted := s.accepted ++ settled s.calls.length events } := by
  induction events generalizing s with
  | nil => simp [Routed.exec, settled]
  | cons e events ih =>
    obtain ⟨he, hrest⟩ := List.forall_mem_cons.1 h
    cases e with
    | call m => cases he
    | settle call outcome =>
      change (s.step publish (.settle call outcome)).exec publish events = _
      rw [ih _ hrest, Routed.step]
      by_cases hacc : outcome.accepted ∧ call < s.calls.length
      · simp [settled, hacc]
      · simp [settled, hacc]

theorem mem_settled_iff {n k : ℕ} {events : List RouteEvent} :
    k ∈ settled n events ↔
      k < n ∧ ∃ outcome, outcome.accepted = true ∧ RouteEvent.settle k outcome ∈ events := by
  rw [settled, List.mem_filterMap]
  constructor
  · rintro ⟨e, he, hk⟩
    cases e with
    | call m => cases hk
    | settle call outcome =>
      simp only at hk
      split at hk
      · next h =>
        obtain rfl := Option.some.inj hk
        exact ⟨h.2, outcome, h.1, he⟩
      · cases hk
  · rintro ⟨hk, outcome, hacc, he⟩
    exact ⟨_, he, if_pos ⟨hacc, hk⟩⟩

/-- What was called stays called. -/
theorem mem_calls_exec {topics : List String} {properties : P} {c : LibraryCall P}
    (events : List RouteEvent) {s : Routed P} (h : c ∈ s.calls) :
    c ∈ (s.exec (publishAlias topics properties) events).calls := by
  induction events generalizing s with
  | nil => exact h
  | cons e events ih =>
    apply ih
    cases e with
    | call m =>
      rw [Routed.step, publishAlias]
      split
      · cases topics.head? with
        | none => exact h
        | some topic => exact List.mem_append_left _ h
      · exact List.mem_append_left _ h
    | settle call outcome =>
      rw [Routed.step]
      split <;> exact h

/-- An empty topic with nothing accepted before it. -/
theorem not_aliasKept {topics : List String} {properties : P} {s : Routed P} {c : LibraryCall P}
    (hc : c ∈ s.calls) (htopic : c.topic = "") (hbefore : c.before = []) :
    ¬ AliasKept topics properties s := by
  intro h
  obtain ⟨k, hk, -⟩ := (h c hc).1 htopic
  rw [hbefore] at hk
  cases hk

/-! ## When the broker has the alias -/

/-- The first call carried the topic and was accepted, and all others were made later and
pass the empty topic. -/
structure Armed (topics : List String) (properties : P) (s : Routed P) : Prop where
  first : s.first = false
  accepted : 0 ∈ s.accepted
  calls : ∃ d rest, s.calls = d :: rest ∧ d.topic ≠ "" ∧ d.before = [] ∧
    topics.head? = some d.topic ∧ d.properties = properties ∧
    ∀ c ∈ rest, c.topic = "" ∧ 0 ∈ c.before

theorem Armed.step {topics : List String} {properties : P} {s : Routed P}
    (h : Armed topics properties s) (e : RouteEvent) :
    Armed topics properties (s.step (publishAlias topics properties) e) := by
  cases e with
  | call m =>
    obtain ⟨d, rest, hcalls, htopic, hbefore, hhead, hproperties, hrest⟩ := h.calls
    have hstep : s.step (publishAlias topics properties) (.call m) = s.library "" m properties :=
      if_neg (by rw [h.first]; decide)
    rw [hstep]
    refine ⟨h.first, h.accepted, d, rest ++ [⟨"", m.payload, m.qos, properties, s.accepted⟩], ?_,
      htopic, hbefore, hhead, hproperties, ?_⟩
    · change s.calls ++ _ = _
      rw [hcalls, List.cons_append]
    · intro c hc
      rcases List.mem_append.1 hc with hc | hc
      · exact hrest c hc
      · rw [List.mem_singleton.1 hc]
        exact ⟨rfl, h.accepted⟩
  | settle call outcome =>
    rw [Routed.step]
    split
    · exact ⟨h.first, List.mem_append_left _ h.accepted, h.calls⟩
    · exact h

theorem Armed.exec {topics : List String} {properties : P} {s : Routed P}
    (h : Armed topics properties s) (events : List RouteEvent) :
    Armed topics properties (s.exec (publishAlias topics properties) events) := by
  induction events generalizing s with
  | nil => exact h
  | cons e events ih => exact ih (h.step e)

theorem Armed.aliasKept {topics : List String} {properties : P} {s : Routed P}
    (h : Armed topics properties s) : AliasKept topics properties s := by
  obtain ⟨d, rest, hcalls, htopic, hbefore, hhead, hproperties, hrest⟩ := h.calls
  intro c hc
  rw [hcalls] at hc
  rcases List.mem_cons.1 hc with rfl | hc
  · apply iff_of_false htopic
    rintro ⟨k, hk, -⟩
    rw [hbefore] at hk
    cases hk
  · obtain ⟨hempty, hzero⟩ := hrest c hc
    exact iff_of_true hempty ⟨0, hzero, d, by rw [hcalls]; rfl, hhead, hproperties⟩

/-! ## All runs -/

theorem forall_mem_untilCall (events : List RouteEvent) :
    ∀ e ∈ untilCall events, e.isCall = false := by
  intro e he
  simpa using List.mem_takeWhile_imp he

theorem settled_zero (events : List RouteEvent) : settled 0 events = [] := by
  apply List.eq_nil_iff_forall_not_mem.2
  intro k hk
  exact absurd (mem_settled_iff.1 hk).1 (Nat.not_lt_zero k)

/-- Splitting a run at its next call. -/
theorem exec_next (s : Routed P) (events : List RouteEvent) :
    s.exec publish events
      = { s with accepted := s.accepted ++ settled s.calls.length (untilCall events) }.exec publish
          (fromCall events) := by
  have hsettles : s.exec publish (untilCall events) = _ :=
    exec_settles s (forall_mem_untilCall events)
  rw [← hsettles, ← exec_append, untilCall, fromCall, List.takeWhile_append_dropWhile]

/-- Nothing can be accepted before the first call. -/
theorem exec_init (events : List RouteEvent) :
    (Routed.init : Routed P).exec publish events = Routed.init.exec publish (fromCall events) := by
  rw [exec_next]
  change Routed.exec publish { (Routed.init : Routed P) with
    accepted := [] ++ settled 0 (untilCall events) } _ = _
  rw [settled_zero]
  rfl

theorem fromCall_cases (events : List RouteEvent) :
    (fromCall events = [] ∧ ¬ ∃ e ∈ events, e.isCall = true) ∨
      ∃ m tail, fromCall events = .call m :: tail ∧ ∃ e ∈ events, e.isCall = true := by
  cases hd : fromCall events with
  | nil =>
    refine .inl ⟨rfl, ?_⟩
    have hall := List.dropWhile_eq_nil_iff.1 hd
    rintro ⟨e, he, hcall⟩
    simpa [hcall] using hall e he
  | cons e tail =>
    have hmem : e ∈ events :=
      (List.dropWhile_sublist _).mem (show e ∈ fromCall events by rw [hd]; exact List.mem_cons_self)
    have hcall : e.isCall = true := by
      have hhead := List.head_dropWhile_not (fun e : RouteEvent => !e.isCall)
        (show fromCall events ≠ [] by rw [hd]; simp)
      change (!((fromCall events).head _).isCall) = false at hhead
      simpa [hd] using hhead
    cases e with
    | call m => exact .inr ⟨m, tail, rfl, _, hmem, hcall⟩
    | settle call outcome => cases hcall

/-- A second message that is published before the first was accepted uses an alias that the
broker does not have. -/
theorem not_aliasKept_second {topics : List String} {properties : P} {s : Routed P}
    (hfirst : s.first = false) (haccepted : s.accepted = []) (m : Message)
    (tail : List RouteEvent) :
    ¬ AliasKept topics properties
      (s.exec (publishAlias topics properties) (.call m :: tail)) := by
  have hstep : s.step (publishAlias topics properties) (.call m) = s.library "" m properties :=
    if_neg (by rw [hfirst]; decide)
  have hmem : (⟨"", m.payload, m.qos, properties, []⟩ : LibraryCall P)
      ∈ (s.library "" m properties).calls := by
    rw [Routed.library, haccepted]
    exact List.mem_append_right _ (List.mem_singleton_self _)
  change ¬ AliasKept topics properties
    ((s.step (publishAlias topics properties) (.call m)).exec _ tail)
  rw [hstep]
  exact not_aliasKept (mem_calls_exec tail hmem) rfl rfl

/-- After the first message, with its topic, everything depends on what was accepted before
the second. -/
theorem aliasKept_later {topics : List String} {properties : P} {s : Routed P} {d : LibraryCall P}
    (hfirst : s.first = false) (haccepted : s.accepted = []) (hcalls : s.calls = [d])
    (hhead : topics.head? = some d.topic) (htopic : d.topic ≠ "") (hbefore : d.before = [])
    (hproperties : d.properties = properties) (later : List RouteEvent) :
    AliasKept topics properties (s.exec (publishAlias topics properties) later) ↔
      ((∃ e ∈ later, e.isCall = true) → ∃ outcome, outcome.accepted = true ∧
        RouteEvent.settle 0 outcome ∈ untilCall later) := by
  rw [exec_next, hcalls, haccepted, List.nil_append, List.length_singleton]
  rcases fromCall_cases later with ⟨hnil, hnone⟩ | ⟨m, tail, hcons, hsome⟩
  · rw [hnil]
    refine iff_of_true ?_ fun h => absurd h hnone
    intro c hc
    obtain rfl : c = d := by simpa [Routed.exec, hcalls] using hc
    apply iff_of_false htopic
    rintro ⟨k, hk, -⟩
    rw [hbefore] at hk
    cases hk
  · rw [hcons, forall_prop_of_true hsome]
    by_cases hzero : 0 ∈ settled 1 (untilCall later)
    · refine iff_of_true (Armed.aliasKept (Armed.exec ?_ _)) (mem_settled_iff.1 hzero).2
      exact ⟨hfirst, hzero, d, [], rfl, htopic, hbefore, hhead, hproperties, by simp⟩
    · have hnone : settled 1 (untilCall later) = [] := by
        apply List.eq_nil_iff_forall_not_mem.2
        intro k hk
        obtain rfl : k = 0 := Nat.lt_one_iff.1 (mem_settled_iff.1 hk).1
        exact hzero hk
      rw [hnone]
      apply iff_of_false
      · exact not_aliasKept_second (s := { s with calls := [d], accepted := [] }) hfirst rfl m tail
      · intro h
        exact hzero (mem_settled_iff.2 ⟨Nat.one_pos, h⟩)

/-- **The alias is used when the broker has it, and only then, exactly when the first message
is accepted before the second is published.** -/
theorem aliasKept_iff (topics : List String) (properties : P) (events : List RouteEvent) :
    AliasKept topics properties
        (Routed.init.exec (routedPublish topics properties true) events) ↔
      AcceptsFirst topics events := by
  rw [routedPublish, if_pos rfl, exec_init, AcceptsFirst]
  rcases fromCall_cases events with ⟨hnil, -⟩ | ⟨m, later, hcons, -⟩
  · rw [hnil]
    exact iff_of_true (fun c hc => absurd hc List.not_mem_nil) trivial
  · rw [hcons]
    simp only
    change AliasKept topics properties
      (((Routed.init : Routed P).step (publishAlias topics properties) (.call m)).exec _ later) ↔ _
    cases topics with
    | nil =>
      rw [exec_next]
      rcases fromCall_cases later with ⟨hnil, hnone⟩ | ⟨m', tail, hcons', hsome⟩
      · rw [hnil]
        exact iff_of_true (fun c hc => absurd hc List.not_mem_nil)
          ⟨by simp, fun h => absurd h hnone⟩
      · rw [hcons']
        apply iff_of_false (not_aliasKept_second rfl (settled_zero _) m' tail)
        intro h
        exact (h.2 hsome).1 rfl
    | cons topic topics =>
      by_cases htopic : topic = ""
      · subst htopic
        refine iff_of_false ?_ fun h => h.1 rfl
        exact not_aliasKept (mem_calls_exec later (List.mem_singleton_self _)) rfl rfl
      · rw [aliasKept_later (d := ⟨topic, m.payload, m.qos, properties, []⟩) rfl rfl rfl rfl
          htopic rfl rfl]
        simp [htopic]

/-- The first message is accepted before the second, and the others are in flight. -/
theorem aliasKept_iff_example :
    AliasKept ["sensors/1"] 7 (Routed.init.exec (routedPublish ["sensors/1"] 7 true)
      [.call ⟨"t", [1], 1⟩, .settle 0 (.rc 0), .call ⟨"t", [2], 1⟩, .call ⟨"t", [3], 1⟩]) :=
  (aliasKept_iff ["sensors/1"] 7 _).2 ⟨by decide, fun _ => ⟨by decide, .rc 0, rfl, by
    simp [untilCall, RouteEvent.isCall]⟩⟩

/-- The very first message is refused, with a return code, with `None` or with an exception:
the second one uses an alias that the broker was never given. -/
theorem aliasKept_counterexample :
    ¬ AliasKept ["sensors/1"] 7 (Routed.init.exec (routedPublish ["sensors/1"] 7 true)
        [.call ⟨"t", [1], 1⟩, .settle 0 (.rc 4), .call ⟨"t", [2], 1⟩]) ∧
      ¬ AliasKept ["sensors/1"] 7 (Routed.init.exec (routedPublish ["sensors/1"] 7 true)
        [.call ⟨"t", [1], 1⟩, .settle 0 (.mid none), .call ⟨"t", [2], 1⟩]) ∧
      ¬ AliasKept ["sensors/1"] 7 (Routed.init.exec (routedPublish ["sensors/1"] 7 true)
        [.call ⟨"t", [1], 1⟩, .settle 0 .raised, .call ⟨"t", [2], 1⟩]) :=
  ⟨not_aliasKept_second (s := ⟨false, 0, [⟨"sensors/1", [1], 1, 7, []⟩], []⟩) rfl rfl _ [],
    not_aliasKept_second (s := ⟨false, 0, [⟨"sensors/1", [1], 1, 7, []⟩], []⟩) rfl rfl _ [],
    not_aliasKept_second (s := ⟨false, 0, [⟨"sensors/1", [1], 1, 7, []⟩], []⟩) rfl rfl _ []⟩

end Drive
