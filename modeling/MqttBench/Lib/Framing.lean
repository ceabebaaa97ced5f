import Mathlib

/-!
# Incremental parsing of a byte stream

A parser over a buffer answers that it needs more input, that the input is bad,
or with one item and the unread rest.  Fed a stream in arbitrary pieces, it must
find the same items wherever the pieces are cut.  This file states what has to be
true of one answer for that to hold of a whole stream.

* `Incremental next` — the law of one answer: an item or a rejection does not
  depend on what comes after the bytes it was read from.
* `Drains next xs items left` — asking until more input is needed.
* `next_stream` — the answer on a part of a stream of encoded items is its first item.
* `Drains.split` — whatever part of a stream of encoded items has arrived, draining it
  hands out its first items and leaves the beginning of the rest: the cuts do not matter.
* `agree` — two parsers of one encoding find the same items at every moment.
-/

namespace Framing

variable {α β : Type*}

/-- What a parser makes of the bytes it holds. -/
inductive Answer (α β : Type*)
  /-- The bytes end before the item does. -/
  | more
  /-- No continuation of the bytes is an item. -/
  | bad
  /-- One item, and the bytes after it. -/
  | item (b : β) (rest : List α)

/-- The answer to a buffer stands, whatever is received after it. -/
structure Incremental (next : List α → Answer α β) : Prop where
  /-- An item is read from the bytes before its rest, and from nothing else. -/
  item_append : ∀ {xs b rest}, next xs = .item b rest → ∀ ys, next (xs ++ ys) = .item b (rest ++ ys)
  /-- An item consumes something. -/
  item_lt : ∀ {xs b rest}, next xs = .item b rest → rest.length < xs.length
  /-- A rejected buffer stays rejected. -/
  bad_append : ∀ {xs}, next xs = .bad → ∀ ys, next (xs ++ ys) = .bad

/-- `Drains next xs items left`: asked until it needs more input, `next` hands out
`items` from `xs` and leaves `left`. -/
inductive Drains (next : List α → Answer α β) : List α → List β → List α → Prop
  | stop {xs : List α} : next xs = .more → Drains next xs [] xs
  | item {xs rest left : List α} {b : β} {bs : List β} :
      next xs = .item b rest → Drains next rest bs left → Drains next xs (b :: bs) left

variable {next : List α → Answer α β}

/-- What is left after draining is the beginning of an item. -/
theorem Drains.next_left {xs left : List α} {bs : List β} (h : Drains next xs bs left) :
    next left = .more := by
  induction h with
  | stop hm => exact hm
  | item _ _ ih => exact ih

/-- Draining has one outcome. -/
theorem Drains.unique {xs left left' : List α} {bs bs' : List β} (h : Drains next xs bs left)
    (h' : Drains next xs bs' left') : bs = bs' ∧ left = left' := by
  induction h generalizing bs' with
  | stop hm =>
    cases h' with
    | stop _ => exact ⟨rfl, rfl⟩
    | item hi _ =>
      rw [hm] at hi
      cases hi
  | item hi _ ih =>
    cases h' with
    | stop hm =>
      rw [hi] at hm
      cases hm
    | item hi' hd' =>
      rw [hi] at hi'
      cases hi'
      obtain ⟨rfl, rfl⟩ := ih hd'
      exact ⟨rfl, rfl⟩

/-- `next` reads an encoded item back, whatever follows it. -/
def Frames (next : List α → Answer α β) (enc : β → List α) (b : β) : Prop :=
  ∀ ys, next (enc b ++ ys) = .item b ys

/-- **One answer on a stream of encoded items.**  Whatever part of the stream has arrived,
the parser asks for more or hands out the stream's first item. -/
theorem next_stream (hinc : Incremental next) {enc : β → List α} (hnil : next [] = .more)
    {bs : List β} (hf : ∀ b ∈ bs, Frames next enc b) {xs ys : List α}
    (hs : xs ++ ys = bs.flatMap enc) :
    next xs = .more ∨
      ∃ b ds rest, bs = b :: ds ∧ next xs = .item b rest ∧ rest ++ ys = ds.flatMap enc := by
  cases bs with
  | nil =>
    obtain ⟨rfl, -⟩ := List.append_eq_nil_iff.1 hs
    exact .inl hnil
  | cons b ds =>
    have hb : next (xs ++ ys) = .item b (ds.flatMap enc) := by
      rw [hs, List.flatMap_cons]
      exact hf b (by simp) _
    cases hx : next xs with
    | more => exact .inl rfl
    | bad =>
      rw [hinc.bad_append hx ys] at hb
      cases hb
    | item c rest =>
      rw [hinc.item_append hx ys] at hb
      obtain ⟨rfl, hrest⟩ : c = b ∧ rest ++ ys = ds.flatMap enc := by simpa using hb
      exact .inr ⟨c, ds, rest, rfl, rfl, hrest⟩

/-- **Every beginning of an encoded stream is readable.**  Whatever part of the
stream has arrived, draining it hands out the first items, the leftover is the
beginning of the rest, and the parser asks for more. -/
theorem Drains.split (hinc : Incremental next) {enc : β → List α} (hnil : next [] = .more)
    {bs : List β} (hf : ∀ b ∈ bs, Frames next enc b) {xs ys : List α}
    (hs : xs ++ ys = bs.flatMap enc) :
    ∃ cs ds left, bs = cs ++ ds ∧ Drains next xs cs left ∧ left ++ ys = ds.flatMap enc ∧
      xs = cs.flatMap enc ++ left := by
  induction bs generalizing xs with
  | nil =>
    obtain ⟨rfl, rfl⟩ := List.append_eq_nil_iff.1 hs
    exact ⟨[], [], [], rfl, .stop hnil, rfl, rfl⟩
  | cons b bs ih =>
    have hb : next (xs ++ ys) = .item b (bs.flatMap enc) := by
      rw [hs, List.flatMap_cons]
      exact hf b (by simp) _
    cases hx : next xs with
    | more => exact ⟨[], b :: bs, xs, rfl, .stop hx, hs, rfl⟩
    | bad =>
      rw [hinc.bad_append hx ys] at hb
      cases hb
    | item c rest =>
      rw [hinc.item_append hx ys] at hb
      obtain ⟨rfl, hrest⟩ : c = b ∧ rest ++ ys = bs.flatMap enc := by simpa using hb
      obtain ⟨cs, ds, left, rfl, hd, hleft, hxs⟩ := ih (fun d hd => hf d (by simp [hd])) hrest
      refine ⟨c :: cs, ds, left, rfl, .item hx hd, hleft, ?_⟩
      have hcut : xs ++ ys = (enc c ++ rest) ++ ys := by
        rw [hs, List.flatMap_cons, ← hrest, List.append_assoc]
      rw [List.append_cancel_right hcut, hxs, List.flatMap_cons, List.append_assoc]

/-- **Two parsers of one encoding agree** on how far a stream of items has arrived: each has
handed out the first items and asks for more. -/
theorem agree {next next' : List α → Answer α β} {enc : β → List α} {bs cs ds cs' ds' : List β}
    {left left' : List α} (hf : ∀ b ∈ bs, Frames next enc b) (hf' : ∀ b ∈ bs, Frames next' enc b)
    (h : bs = cs ++ ds) (h' : bs = cs' ++ ds')
    (hx : cs.flatMap enc ++ left = cs'.flatMap enc ++ left') (hm : next left = .more)
    (hm' : next' left' = .more) : cs = cs' ∧ left = left' := by
  induction cs generalizing bs cs' with
  | nil =>
    cases cs' with
    | nil => exact ⟨rfl, hx⟩
    | cons c' cs' =>
      have hc := hf c' (by rw [h']; exact List.mem_cons_self ..) (cs'.flatMap enc ++ left')
      rw [List.flatMap_nil, List.nil_append, List.flatMap_cons, List.append_assoc] at hx
      rw [← hx, hm] at hc
      cases hc
  | cons c cs ih =>
    cases cs' with
    | nil =>
      have hc := hf' c (by rw [h]; exact List.mem_cons_self ..) (cs.flatMap enc ++ left)
      rw [List.flatMap_nil, List.nil_append, List.flatMap_cons, List.append_assoc] at hx
      rw [hx, hm'] at hc
      cases hc
    | cons c' cs' =>
      subst h
      obtain ⟨rfl, htail⟩ := List.cons.inj h'
      rw [List.flatMap_cons, List.flatMap_cons, List.append_assoc, List.append_assoc] at hx
      obtain ⟨rfl, hleft⟩ := ih (fun b hb => hf b (List.mem_cons_of_mem _ hb))
        (fun b hb => hf' b (List.mem_cons_of_mem _ hb)) rfl htail (List.append_cancel_left hx)
      exact ⟨rfl, hleft⟩

end Framing
