/-
# Queues of nodes

`queue.c` on its pointers. A queue is a ring whose head is the `node` of the
`udx_queue_t` itself; a queued node is in one ring. However the operations on
any number of queues follow each other, the rings are the lists that the model
of the streams has in their place, and no pointer that is `NULL` is followed.

Key definitions: `QueueHeap`, `QueueCall`, `QueueHeap.Holds`,
`QueueHeap.rackWalk`.
Key theorems: `QueueHeap.run_lists`, `Reach.rack_nodes`.
-/
import Mathlib.Data.List.Nodup
import Mathlib.Tactic.SplitIfs
import Udx.Rings
import Udx.Rack

namespace Udx

/-- The nodes, by their addresses; a queue is known by that of its node. -/
structure QueueHeap (α : Type) extends Links α where
  len : α → ℕ

namespace QueueHeap

variable {α : Type} [DecidableEq α]

/-! ### queue.c -/

/-- `p->next = v`. -/
def setNext (p v : Option α) (m : QueueHeap α) : Option (QueueHeap α) :=
  p.map fun x => { m with next := Function.update m.next x v }

/-- `p->prev = v`. -/
def setPrev (p v : Option α) (m : QueueHeap α) : Option (QueueHeap α) :=
  p.map fun x => { m with prev := Function.update m.prev x v }

/-- `udx__queue_init`. -/
def udxQueueInit (q : α) (m : QueueHeap α) : QueueHeap α :=
  { prev := Function.update m.prev q (some q)
    next := Function.update m.next q (some q)
    len := Function.update m.len q 0 }

def queueInsert (new : α) (prev next : Option α) (queue : α) (m : QueueHeap α) : Option (QueueHeap α) := do
  let m := { m with next := Function.update m.next new next, prev := Function.update m.prev new prev }
  let m ← m.setPrev next (some new)
  let m ← m.setNext prev (some new)
  some { m with len := Function.update m.len queue (m.len queue + 1) }

def queueAfter (q prev new : α) (m : QueueHeap α) : Option (QueueHeap α) :=
  m.queueInsert new (some prev) (m.next prev) q

def queueBefore (q next new : α) (m : QueueHeap α) : Option (QueueHeap α) :=
  m.queueInsert new (m.prev next) (some next) q

def udxQueueHead (q new : α) (m : QueueHeap α) : Option (QueueHeap α) := m.queueAfter q q new

def udxQueueTail (q new : α) (m : QueueHeap α) : Option (QueueHeap α) := m.queueBefore q q new

/-- `udx__queue_unlink`, which fails where its assert does. -/
def udxQueueUnlink (q p : α) (m : QueueHeap α) : Option (QueueHeap α) :=
  if m.len q = 0 then none
  else do
    let m := { m with len := Function.update m.len q (m.len q - 1) }
    let m ← m.setNext (m.prev p) (m.next p)
    let m ← m.setPrev (m.next p) (m.prev p)
    some { m with next := Function.update m.next p none, prev := Function.update m.prev p none }

def udxQueuePeek (q : α) (m : QueueHeap α) : Option α :=
  if m.next q = some q then none else m.next q

def udxQueueShift (q : α) (m : QueueHeap α) : Option (QueueHeap α × Option α) :=
  match m.udxQueuePeek q with
  | none => some (m, none)
  | some ret => (m.udxQueueUnlink q ret).map fun m => (m, some ret)

def udxQueueSpliceTail (q t : α) (m : QueueHeap α) : Option (QueueHeap α) := do
  let m := { m with len := Function.update m.len q (m.len q + m.len t) }
  let m ← m.setNext (m.prev q) (m.next t)
  let m ← m.setPrev (m.next t) (m.prev q)
  let m := { m with prev := Function.update m.prev q (m.prev t) }
  let m ← m.setNext (m.prev q) (some q)
  some (m.udxQueueInit t)

/-- `udx__queue_foreach` from node `p` on, at most `fuel` times round. -/
def udxQueueForeach (q : α) : ℕ → Option α → QueueHeap α → Option (List α)
  | _, none, _ => none
  | 0, some p, _ => if p = q then some [] else none
  | fuel + 1, some p, m =>
    if p = q then some [] else (udxQueueForeach q fuel (m.next p) m).map (p :: ·)

/-- The loop of `rack_detect_loss` over queue `q` from node `p` on, at most
`fuel` times round: it reads `p->next` before node `p` may move to queue `r`. -/
def rackWalk (q r : α) (late lost : α → Bool) : ℕ → Option α → QueueHeap α → Option (QueueHeap α)
  | _, none, _ => none
  | 0, some p, m => if p = q then some m else none
  | fuel + 1, some p, m =>
    if p = q then some m
    else if late p then some m
    else if lost p then do
      let next := m.next p
      let m ← m.udxQueueUnlink q p
      let m ← m.udxQueueTail r p
      rackWalk q r late lost fuel next m
    else rackWalk q r late lost fuel (m.next p) m

/-! ### The lists -/

/-- A queue holds these nodes. -/
structure Queue (m : QueueHeap α) (q : α) (xs : List α) : Prop where
  cycle : m.toLinks.Cycle q xs
  len : m.len q = xs.length

/-- The queues that were set up hold these nodes, each of its own. -/
structure Holds (m : QueueHeap α) (a : α → Option (List α)) : Prop where
  queue : ∀ {q xs}, a q = some xs → m.Queue q xs
  apart : ∀ {q xs q' xs'}, a q = some xs → a q' = some xs' → q ≠ q' → ∀ x ∈ q :: xs, x ∉ q' :: xs'

/-- Node `v` is in no queue. -/
def Free (a : α → Option (List α)) (v : α) : Prop := ∀ q xs, a q = some xs → v ∉ q :: xs

section

variable {m : QueueHeap α} {a : α → Option (List α)} {q v : α} {xs : List α}

theorem queueInsert_eq {new p n : α} (hp : p ≠ new) (hn : n ≠ new) :
    m.queueInsert new (some p) (some n) q =
      some { (m.toLinks.link p new).link new n with len := Function.update m.len q (m.len q + 1) } := by
  simp only [queueInsert, setPrev, setNext, Links.link, Option.map_some, Option.bind_eq_bind, Option.bind_some]
  rw [Function.update_comm hp.symm, Function.update_comm hn.symm]

theorem udxQueueUnlink_eq {p n : α} (hlen : m.len q ≠ 0) (hp : m.prev v = some p) (hn : m.next v = some n)
    (hpv : p ≠ v) : m.udxQueueUnlink q v =
      some { (m.toLinks.link p n).clear v with len := Function.update m.len q (m.len q - 1) } := by
  unfold udxQueueUnlink
  rw [if_neg hlen]
  simp only [setNext, setPrev, Links.link, Links.clear, hp, hn, Option.map_some, Option.bind_eq_bind, Option.bind_some,
    Function.update_of_ne hpv.symm]

namespace Queue

theorem head? (h : m.Queue q xs) : m.udxQueuePeek q = xs.head? := by
  unfold udxQueuePeek
  rw [h.cycle.next_eq]
  cases xs with
  | nil => simp
  | cons x xs =>
    have hne : x ≠ q := fun e => (List.nodup_cons.mp h.cycle.nodup).1 (by simp [e])
    simp [hne]

theorem udxQueueForeach (h : m.Queue q xs) {fuel : ℕ} (hfuel : xs.length ≤ fuel) :
    m.udxQueueForeach q fuel (m.next q) = some xs := by
  have hwalk : ∀ (ys : List α) (fuel : ℕ) (p : α), ys.length ≤ fuel → q ∉ ys → m.toLinks.Chain p ys q →
      QueueHeap.udxQueueForeach q fuel (m.next p) m = some ys := by
    intro ys
    induction ys with
    | nil =>
      intro fuel p _ _ hc
      rw [hc.1]
      cases fuel <;> simp [QueueHeap.udxQueueForeach]
    | cons y ys ih =>
      intro fuel p hle hq hc
      obtain ⟨fuel, rfl⟩ := Nat.exists_eq_add_one_of_ne_zero
        (Nat.ne_of_gt (Nat.lt_of_lt_of_le (Nat.succ_pos _) hle))
      simp only [List.mem_cons, not_or] at hq
      rw [hc.1, QueueHeap.udxQueueForeach, if_neg (Ne.symm hq.1),
        ih fuel y (by simpa using hle) hq.2 hc.2.2, Option.map_some]
  exact hwalk xs fuel q hfuel (List.nodup_cons.mp h.cycle.nodup).1 h.cycle.chain

end Queue

end

/-- What a queue does without moving any node. -/
inductive QueueCall (α : Type)
  | init (q : α)
  | head (q new : α)
  | tail (q new : α)
  | unlink (q p : α)
  | peek (q : α)
  | shift (q : α)
  | spliceTail (q t : α)

/-- A call, and what it returns. -/
def call (m : QueueHeap α) : QueueCall α → Option (QueueHeap α × Option α)
  | .init q => some (m.udxQueueInit q, none)
  | .head q new => (m.udxQueueHead q new).map fun m => (m, none)
  | .tail q new => (m.udxQueueTail q new).map fun m => (m, none)
  | .unlink q p => (m.udxQueueUnlink q p).map fun m => (m, none)
  | .peek q => some (m, m.udxQueuePeek q)
  | .shift q => m.udxQueueShift q
  | .spliceTail q t => (m.udxQueueSpliceTail q t).map fun m => (m, none)

def run : List (QueueCall α) → QueueHeap α → Option (QueueHeap α × List (Option α))
  | [], m => some (m, [])
  | c :: cs, m => do
    let (m, r) ← m.call c
    let (m, rs) ← run cs m
    some (m, r :: rs)

/-- Lists for queues. -/
abbrev Lists (α : Type) := α → Option (List α)

namespace Lists

/-- The nodes of queue `q`. -/
def items (a : Lists α) (q : α) : List α := (a q).getD []

def set (a : Lists α) (q : α) (xs : List α) : Lists α := Function.update a q (some xs)

theorem set_same {a : Lists α} {q : α} {xs : List α} (h : a q = some xs) : a.set q xs = a := by
  rw [set, Function.update_eq_self_iff, h]

/-- The same calls, on lists. -/
def call (a : Lists α) : QueueCall α → Lists α × Option α
  | .init q => (a.set q [], none)
  | .head q new => (a.set q (new :: a.items q), none)
  | .tail q new => (a.set q (a.items q ++ [new]), none)
  | .unlink q p => (a.set q ((a.items q).erase p), none)
  | .peek q => (a, (a.items q).head?)
  | .shift q => (a.set q (a.items q).tail, (a.items q).head?)
  | .spliceTail q t => ((a.set q (a.items q ++ a.items t)).set t [], none)

def run : List (QueueCall α) → Lists α → Lists α × List (Option α)
  | [], a => (a, [])
  | c :: cs, a => ((run cs (a.call c).1).1, (a.call c).2 :: (run cs (a.call c).1).2)

/-- What the callers see to: a queue is set up first, a node is queued once, a
node is unlinked from the queue it is in. -/
def Allows (a : Lists α) : QueueCall α → Prop
  | .init q => ∀ q' xs, a q' = some xs → q' ≠ q → q ∉ q' :: xs
  | .head q new | .tail q new => (a q).isSome ∧ Free a new
  | .unlink q p => p ∈ a.items q
  | .peek q | .shift q => (a q).isSome
  | .spliceTail q t => (a q).isSome ∧ (a t).isSome ∧ q ≠ t

def AllowsAll : List (QueueCall α) → Lists α → Prop
  | [], _ => True
  | c :: cs, a => a.Allows c ∧ AllowsAll cs (a.call c).1

end Lists

namespace Holds

variable {m m' : QueueHeap α} {a : Lists α} {q t v : α} {xs ys : List α}

omit [DecidableEq α] in
theorem of_isSome (h : m.Holds a) (hq : (a q).isSome) : m.Queue q (a.items q) := by
  obtain ⟨xs, hxs⟩ := Option.isSome_iff_exists.mp hq
  unfold Lists.items
  rw [hxs]
  exact h.queue hxs

/-- One queue changes, and gets no node that another one has. -/
theorem set (h : m.Holds a) (hq : m'.Queue q ys)
    (hother : ∀ q' xs, a q' = some xs → q' ≠ q → m'.Queue q' xs ∧ ∀ x ∈ q :: ys, x ∉ q' :: xs) :
    m'.Holds (a.set q ys) := by
  have hset : ∀ {q' xs}, (a.set q ys) q' = some xs → q' = q ∧ xs = ys ∨ q' ≠ q ∧ a q' = some xs := by
    intro q' xs hq'
    by_cases he : q' = q
    · subst he
      rw [Lists.set, Function.update_self] at hq'
      exact .inl ⟨rfl, (Option.some.inj hq').symm⟩
    · rw [Lists.set, Function.update_of_ne he] at hq'
      exact .inr ⟨he, hq'⟩
  refine ⟨fun {q' xs} hq' => ?_, fun {p xs p' xs'} hp hp' hne => ?_⟩
  · obtain ⟨rfl, rfl⟩ | ⟨hne, hq'⟩ := hset hq'
    · exact hq
    · exact (hother _ _ hq' hne).1
  · obtain ⟨rfl, rfl⟩ | ⟨hpq, hold⟩ := hset hp <;> obtain ⟨rfl, rfl⟩ | ⟨hpq', hold'⟩ := hset hp'
    · exact absurd rfl hne
    · exact (hother _ _ hold' hpq').2
    · exact fun x hx hx' => (hother _ _ hold hpq).2 x hx' hx
    · exact h.apart hold hold' hne

theorem init (h : m.Holds a) (hc : a.Allows (.init q)) : (m.udxQueueInit q).Holds (a.set q []) := by
  have hlink : (m.udxQueueInit q).toLinks = m.toLinks.link q q := rfl
  refine h.set ⟨?_, ?_⟩ fun q' xs hq' hne => ⟨⟨?_, ?_⟩, ?_⟩
  · rw [hlink]
    exact .nil (by simp [Links.link]) (by simp [Links.link])
  · simp [udxQueueInit]
  · rw [hlink]
    exact (h.queue hq').cycle.link (hc q' xs hq' hne) (hc q' xs hq' hne)
  · simp [udxQueueInit, Function.update_of_ne hne, (h.queue hq').len]
  · simpa using hc q' xs hq' hne

/-- A node that is in no queue goes between two neighbours of `q`. -/
theorem insert (h : m.Holds a) (as bs : List α) (hq : a q = some (as ++ bs)) (hv : Free a v) {p n : α}
    (hp : (q :: as).getLast? = some p) (hn : (bs ++ [q]).head? = some n) :
    ∃ m', m.queueInsert v (some p) (some n) q = some m' ∧ m'.Holds (a.set q (as ++ v :: bs)) := by
  have hpmem : p ∈ q :: (as ++ bs) := by
    have hmem := List.mem_of_getLast? hp
    simp only [List.mem_cons, List.mem_append] at hmem ⊢
    tauto
  have hnmem : n ∈ q :: (as ++ bs) := by
    have hmem := List.mem_of_mem_head? hn
    simp only [List.mem_cons, List.mem_append, List.not_mem_nil, or_false] at hmem ⊢
    tauto
  have hvq := hv q _ hq
  refine ⟨_, queueInsert_eq (ne_of_mem_of_not_mem hpmem hvq) (ne_of_mem_of_not_mem hnmem hvq),
    h.set ⟨(h.queue hq).cycle.insert hvq hp hn, ?_⟩ fun q' xs hq' hne => ⟨⟨?_, ?_⟩, fun x hx => ?_⟩⟩
  · simp [(h.queue hq).len]
    omega
  · refine ((h.queue hq').cycle.link ?_ (hv q' xs hq')).link (hv q' xs hq') ?_
    · exact h.apart hq hq' hne.symm p hpmem
    · exact h.apart hq hq' hne.symm n hnmem
  · simp [Function.update_of_ne hne, (h.queue hq').len]
  · have hx' : x = v ∨ x ∈ q :: (as ++ bs) := by
      simp only [List.mem_cons, List.mem_append] at hx ⊢
      tauto
    rcases hx' with rfl | hx'
    · exact hv q' xs hq'
    · exact h.apart hq hq' hne.symm x hx'

theorem head (h : m.Holds a) (hq : (a q).isSome) (hv : Free a v) :
    ∃ m', m.udxQueueHead q v = some m' ∧ m'.Holds (a.set q (v :: a.items q)) := by
  obtain ⟨xs, hxs⟩ := Option.isSome_iff_exists.mp hq
  have hitems : a.items q = xs := by simp [Lists.items, hxs]
  obtain ⟨n, hn⟩ : ∃ n, (xs ++ [q]).head? = some n := by cases xs <;> simp
  unfold udxQueueHead queueAfter
  rw [hitems, (h.queue hxs).cycle.next_eq, hn]
  exact h.insert [] xs hxs hv rfl hn

theorem tail (h : m.Holds a) (hq : (a q).isSome) (hv : Free a v) :
    ∃ m', m.udxQueueTail q v = some m' ∧ m'.Holds (a.set q (a.items q ++ [v])) := by
  obtain ⟨xs, hxs⟩ := Option.isSome_iff_exists.mp hq
  have hitems : a.items q = xs := by simp [Lists.items, hxs]
  obtain ⟨p, hp⟩ : ∃ p, (q :: xs).getLast? = some p := ⟨_, List.getLast?_cons⟩
  unfold udxQueueTail queueBefore
  rw [hitems, (h.queue hxs).cycle.prev_eq, hp]
  exact h.insert xs [] (by simpa using hxs) hv hp rfl

theorem unlink (h : m.Holds a) (hv : v ∈ a.items q) :
    ∃ m', m.udxQueueUnlink q v = some m' ∧ m'.Holds (a.set q ((a.items q).erase v)) := by
  have hsome : ∃ xs, a q = some xs := by
    cases hq : a q with
    | none => simp [Lists.items, hq] at hv
    | some xs => exact ⟨xs, rfl⟩
  obtain ⟨xs, hxs⟩ := hsome
  have hitems : a.items q = xs := by simp [Lists.items, hxs]
  rw [hitems] at hv ⊢
  obtain ⟨as, bs, rfl⟩ := List.append_of_mem hv
  have hqueue := h.queue hxs
  have hnodup := hqueue.cycle.nodup
  simp only [List.nodup_cons, List.nodup_append, List.mem_append, List.mem_cons, not_or] at hnodup
  obtain ⟨⟨hqa, hqv, hqb⟩, hna, ⟨hvb, hnb⟩, hab⟩ := hnodup
  have hva : v ∉ as := fun hv => hab v hv v (.inl rfl) rfl
  obtain ⟨p, hp⟩ : ∃ p, (q :: as).getLast? = some p := ⟨_, List.getLast?_cons⟩
  obtain ⟨n, hn⟩ : ∃ n, (bs ++ [q]).head? = some n := by cases bs <;> simp
  have hpmem : p = q ∨ p ∈ as := by simpa using List.mem_of_getLast? hp
  have hnmem : n ∈ bs ∨ n = q := by simpa using List.mem_of_mem_head? hn
  have hprev : m.prev v = some p := hqueue.cycle.prev_mem.trans hp
  have hnext : m.next v = some n := hqueue.cycle.next_mem.trans hn
  have hpv : p ≠ v := by
    rcases hpmem with rfl | hpmem
    · exact hqv
    · exact fun e => hva (e ▸ hpmem)
  have hlen : m.len q ≠ 0 := by
    rw [hqueue.len]
    simp
  have herase : (as ++ v :: bs).erase v = as ++ bs := by
    rw [List.erase_append_right _ hva, List.erase_cons_head]
  rw [herase]
  refine ⟨_, udxQueueUnlink_eq hlen hprev hnext hpv,
    h.set ⟨hqueue.cycle.remove hprev hnext, ?_⟩ fun q' xs hq' hne => ⟨⟨?_, ?_⟩, fun x hx => ?_⟩⟩
  · simp [hqueue.len]
  · have hout : ∀ x, x ∈ q :: (as ++ v :: bs) → x ∉ q' :: xs := h.apart hxs hq' hne.symm
    refine ((h.queue hq').cycle.link (hout p ?_) (hout n ?_)).clear (hout v (by simp))
    · rcases hpmem with rfl | hpmem <;> simp [*]
    · rcases hnmem with hnmem | rfl <;> simp [*]
  · simp [Function.update_of_ne hne, (h.queue hq').len]
  · refine h.apart hxs hq' hne.symm x ?_
    simp only [List.mem_cons, List.mem_append] at hx ⊢
    tauto

theorem spliceTail (h : m.Holds a) (hq : (a q).isSome) (ht : (a t).isSome) (hne : q ≠ t) :
    ∃ m', m.udxQueueSpliceTail q t = some m' ∧ m'.Holds ((a.set q (a.items q ++ a.items t)).set t []) := by
  obtain ⟨xs, hxs⟩ := Option.isSome_iff_exists.mp hq
  obtain ⟨ys, hys⟩ := Option.isSome_iff_exists.mp ht
  have hxitems : a.items q = xs := by simp [Lists.items, hxs]
  have hyitems : a.items t = ys := by simp [Lists.items, hys]
  have hqueue := h.queue hxs
  have htail := h.queue hys
  obtain ⟨p, hp⟩ : ∃ p, (q :: xs).getLast? = some p := ⟨_, List.getLast?_cons⟩
  have hpmem := List.mem_of_getLast? hp
  have hprev : m.prev q = some p := hqueue.cycle.prev_eq.trans hp
  have hpt : p ≠ t := fun e => h.apart hxs hys hne p hpmem (by simp [e])
  rw [hxitems, hyitems]
  -- the rings, and the frame of the other queues
  have hframe : ∀ {r : Links α} {f : α → ℕ}, r.Cycle q (xs ++ ys) → r.Cycle t [] → f q = xs.length + ys.length →
      f t = 0 → (∀ q' zs, a q' = some zs → q' ≠ q → q' ≠ t → r.Cycle q' zs ∧ f q' = m.len q') →
      Holds { r with len := f } ((a.set q (xs ++ ys)).set t []) := by
    intro r f hcq hct hfq hft hother
    have hmem : ∀ x ∈ q :: (xs ++ ys), x ∈ q :: xs ∨ x ∈ t :: ys := by
      intro x hx
      simp only [List.mem_cons, List.mem_append] at hx ⊢
      tauto
    have hget : ∀ {q' zs}, ((a.set q (xs ++ ys)).set t []) q' = some zs →
        q' = t ∧ zs = [] ∨ q' = q ∧ zs = xs ++ ys ∨ q' ≠ q ∧ q' ≠ t ∧ a q' = some zs := by
      intro q' zs hz
      unfold Lists.set at hz
      by_cases h1 : q' = t
      · subst h1
        rw [Function.update_self] at hz
        exact .inl ⟨rfl, (Option.some.inj hz).symm⟩
      · rw [Function.update_of_ne h1] at hz
        by_cases h2 : q' = q
        · subst h2
          rw [Function.update_self] at hz
          exact .inr (.inl ⟨rfl, (Option.some.inj hz).symm⟩)
        · rw [Function.update_of_ne h2] at hz
          exact .inr (.inr ⟨h2, h1, hz⟩)
    have hapart : ∀ q' zs, a q' = some zs → q' ≠ q → q' ≠ t → ∀ x ∈ q :: (xs ++ ys), x ∉ q' :: zs := by
      intro q' zs hz h1 h2 x hx
      rcases hmem x hx with hx | hx
      · exact h.apart hxs hz h1.symm x hx
      · exact h.apart hys hz h2.symm x hx
    have htq : t ∉ q :: (xs ++ ys) := by
      intro hx
      have hnodup := htail.cycle.nodup
      simp only [List.mem_cons, List.mem_append] at hx
      rcases hx with rfl | hx | hx
      · exact hne rfl
      · exact h.apart hxs hys hne t (by simp [hx]) (by simp)
      · exact (List.nodup_cons.mp hnodup).1 hx
    refine ⟨fun hz => ?_, fun {u zs u' zs'} hz hz' hu => ?_⟩
    · obtain ⟨rfl, rfl⟩ | ⟨rfl, rfl⟩ | ⟨h1, h2, hz⟩ := hget hz
      · exact ⟨hct, hft⟩
      · exact ⟨hcq, by simp [hfq]⟩
      · obtain ⟨hc, hl⟩ := hother _ _ hz h1 h2
        exact ⟨hc, hl.trans (h.queue hz).len⟩
    · obtain ⟨rfl, rfl⟩ | ⟨rfl, rfl⟩ | ⟨h1, h2, hold⟩ := hget hz <;>
        obtain ⟨rfl, rfl⟩ | ⟨rfl, rfl⟩ | ⟨h1', h2', hold'⟩ := hget hz'
      · exact absurd rfl hu
      · simpa using htq
      · exact fun x hx => h.apart hys hold' hu x (by simp_all)
      · exact fun x hx hx' => htq (by simp_all)
      · exact absurd rfl hu
      · exact hapart _ _ hold' h1' h2'
      · exact fun x hx hx' => h.apart hold hys hu x hx (by simp_all)
      · exact fun x hx hx' => hapart _ _ hold h1 h2 x hx' hx
      · exact h.apart hold hold' hu
  have hqt : ∀ x ∈ q :: xs, x ∉ t :: ys := h.apart hxs hys hne
  have hqx : q ∉ xs := (List.nodup_cons.mp hqueue.cycle.nodup).1
  cases ys with
  | nil =>
    have hnext : m.next t = some t := htail.cycle.next_eq
    have hback : m.prev t = some t := htail.cycle.prev_eq
    have hring : m.udxQueueSpliceTail q t = some { (m.toLinks.link p q).link t t with
        len := Function.update (Function.update m.len q (m.len q + m.len t)) t 0 } := by
      simp only [udxQueueSpliceTail, setNext, setPrev, udxQueueInit, Links.link, hprev, hnext, Option.map_some,
        Option.bind_eq_bind, Option.bind_some, Function.update_of_ne hpt.symm, Function.update_self,
        Function.update_idem, Function.update_comm hne]
    refine ⟨_, hring, hframe ?_ (.nil ?_ ?_) ?_ ?_ fun q' zs hz h1 h2 => ⟨?_, ?_⟩⟩
    · rw [List.append_nil]
      have hrelinked : (m.toLinks.link p q).Cycle q xs :=
        ⟨hqueue.cycle.nodup, hqueue.cycle.chain.relink hqueue.cycle.nodup hqx hp⟩
      have hout : t ∉ q :: xs := fun ht => hqt t ht (by simp)
      exact hrelinked.link hout hout
    · simp [Links.link]
    · simp [Links.link]
    · simp [Function.update_of_ne hne, hqueue.len, htail.len]
    · simp
    · have hout := h.apart hxs hz h1.symm
      have hout' := h.apart hys hz h2.symm t (by simp)
      exact (((h.queue hz).cycle.link (hout p hpmem) (hout q (by simp))).link hout' hout')
    · simp [Function.update_of_ne h1, Function.update_of_ne h2]
  | cons n ys =>
    obtain ⟨l, hl⟩ : ∃ l, (n :: ys).getLast? = some l := ⟨_, List.getLast?_cons⟩
    have hlmem := List.mem_of_getLast? hl
    have hnext : m.next t = some n := htail.cycle.next_eq
    have hback : m.prev t = some l := by
      rw [htail.cycle.prev_eq, List.getLast?_cons_cons]
      exact hl
    have htn : t ≠ n := fun e => (List.nodup_cons.mp htail.cycle.nodup).1 (by simp [e])
    have hqn : q ≠ n := fun e => hqt q (by simp) (by simp [e])
    have hring : m.udxQueueSpliceTail q t = some { ((m.toLinks.link p n).link l q).link t t with
        len := Function.update (Function.update m.len q (m.len q + m.len t)) t 0 } := by
      simp only [udxQueueSpliceTail, setNext, setPrev, udxQueueInit, Links.link, hprev, hnext, hback, Option.map_some,
        Option.bind_eq_bind, Option.bind_some, Function.update_of_ne hpt.symm, Function.update_of_ne htn,
        Function.update_self]
    refine ⟨_, hring, hframe ?_ (.nil ?_ ?_) ?_ ?_ fun q' zs hz h1 h2 => ⟨?_, ?_⟩⟩
    · have hspliced := hqueue.cycle.splice htail.cycle hqt hp hl
      have hout : t ∉ q :: (xs ++ n :: ys) := by
        intro hx
        rw [← List.cons_append, List.mem_append] at hx
        rcases hx with hx | hx
        · exact hqt t hx (by simp)
        · exact (List.nodup_cons.mp htail.cycle.nodup).1 hx
      exact hspliced.link hout hout
    · simp [Links.link]
    · simp [Links.link]
    · simp [Function.update_of_ne hne, hqueue.len, htail.len]
    · simp
    · have hout := h.apart hxs hz h1.symm
      have hout' := h.apart hys hz h2.symm
      exact (((h.queue hz).cycle.link (hout p hpmem) (hout' n (by simp))).link
        (hout' l (List.mem_cons_of_mem _ hlmem)) (hout q (by simp))).link (hout' t (by simp)) (hout' t (by simp))
    · simp [Function.update_of_ne h1, Function.update_of_ne h2]

/-- Every call that the callers see to does on the pointers what it does on the
lists. -/
theorem call (h : m.Holds a) {c : QueueCall α} (hc : a.Allows c) :
    ∃ m', m.call c = some (m', (a.call c).2) ∧ m'.Holds (a.call c).1 := by
  cases c with
  | init q => exact ⟨_, rfl, h.init hc⟩
  | head q v =>
    obtain ⟨m', hm, hm'⟩ := h.head hc.1 hc.2
    exact ⟨m', by rw [QueueHeap.call, hm]; rfl, hm'⟩
  | tail q v =>
    obtain ⟨m', hm, hm'⟩ := h.tail hc.1 hc.2
    exact ⟨m', by rw [QueueHeap.call, hm]; rfl, hm'⟩
  | unlink q v =>
    obtain ⟨m', hm, hm'⟩ := h.unlink hc
    exact ⟨m', by rw [QueueHeap.call, hm]; rfl, hm'⟩
  | peek q =>
    refine ⟨m, ?_, h⟩
    rw [QueueHeap.call, (h.of_isSome hc).head?]
    rfl
  | shift q =>
    have hpeek := (h.of_isSome hc).head?
    simp only [QueueHeap.call, udxQueueShift, hpeek]
    cases hitems : a.items q with
    | nil =>
      have hsame : a.set q [] = a := by
        obtain ⟨xs, hxs⟩ := Option.isSome_iff_exists.mp hc
        have hnil : xs = [] := by simpa [Lists.items, hxs] using hitems
        exact Lists.set_same (hnil ▸ hxs)
      refine ⟨m, by simp [Lists.call, hitems], ?_⟩
      simp only [Lists.call, hitems, List.tail_nil, hsame]
      exact h
    | cons x xs =>
      obtain ⟨m', hm, hm'⟩ := h.unlink (q := q) (v := x) (by simp [hitems])
      refine ⟨m', by simp [hm, Lists.call, hitems], ?_⟩
      simpa [Lists.call, hitems] using hm'
  | spliceTail q t =>
    obtain ⟨m', hm, hm'⟩ := h.spliceTail hc.1 hc.2.1 hc.2.2
    exact ⟨m', by rw [QueueHeap.call, hm]; rfl, hm'⟩

theorem run (h : m.Holds a) {cs : List (QueueCall α)} (hcs : a.AllowsAll cs) :
    ∃ m', m.run cs = some (m', (a.run cs).2) ∧ m'.Holds (a.run cs).1 := by
  induction cs generalizing m a with
  | nil => exact ⟨m, rfl, h⟩
  | cons c cs ih =>
    obtain ⟨m₁, hcall, h₁⟩ := h.call hcs.1
    obtain ⟨m₂, hrun, h₂⟩ := ih h₁ hcs.2
    refine ⟨m₂, ?_, h₂⟩
    simp only [QueueHeap.run, hcall, hrun, Option.bind_eq_bind, Option.bind_some, Lists.run]

theorem rackWalk (h : m.Holds a) (late lost : α → Bool) {r : α} (done rest : List α) {fuel : ℕ}
    (hq : a q = some (done ++ rest)) (hr : a r = some ys) (hne : q ≠ r) (hfuel : rest.length ≤ fuel) :
    let gone := (rest.takeWhile fun p => !late p).filter lost
    ∃ m', m.rackWalk q r late lost fuel (rest ++ [q]).head? = some m' ∧
      m'.Holds ((a.set q (done ++ rest.filter (· ∉ gone))).set r (ys ++ gone)) := by
  induction rest generalizing m a done ys fuel with
  | nil =>
    have hsame : (a.set q done).set r ys = a := by
      rw [List.append_nil] at hq
      rw [Lists.set_same hq, Lists.set_same hr]
    refine ⟨m, ?_, ?_⟩
    · cases fuel <;> simp [QueueHeap.rackWalk]
    · simpa [hsame] using h
  | cons p rest ih =>
    obtain ⟨fuel, rfl⟩ := Nat.exists_eq_add_one_of_ne_zero
      (Nat.ne_of_gt (Nat.lt_of_lt_of_le (Nat.succ_pos _) hfuel))
    have hcycle := (h.queue hq).cycle
    have hnodup := hcycle.nodup
    simp only [List.nodup_cons, List.nodup_append, List.mem_append, List.mem_cons, not_or] at hnodup
    obtain ⟨⟨hqd, hqp, hqr⟩, hnd, ⟨hpr, hnr⟩, hdr⟩ := hnodup
    have hpd : p ∉ done := fun hp => hdr p hp p (.inl rfl) rfl
    have hnext : m.next p = (rest ++ [q]).head? := hcycle.next_mem
    simp only [List.cons_append, List.head?_cons, QueueHeap.rackWalk, if_neg (Ne.symm hqp), hnext]
    cases hlate : late p with
    | true =>
      -- the loop breaks: what is left stays
      have hsame : (a.set q (done ++ p :: rest)).set r ys = a := by
        rw [Lists.set_same hq, Lists.set_same hr]
      refine ⟨m, rfl, ?_⟩
      simpa [hlate, hsame] using h
    | false =>
      cases hlost : lost p with
      | false =>
        obtain ⟨m', hm, hm'⟩ := ih h (done ++ [p]) (by simpa using hq) hr (Nat.le_of_succ_le_succ hfuel)
        refine ⟨m', by simpa using hm, ?_⟩
        have hgone : p ∉ (rest.takeWhile fun x => !late x).filter lost := fun hp =>
          hpr ((List.takeWhile_sublist _).subset (List.mem_of_mem_filter hp))
        simpa [hlate, hlost, hgone] using hm'
      | true =>
        have hitems : a.items q = done ++ p :: rest := by simp [Lists.items, hq]
        obtain ⟨m₁, hm₁, h₁⟩ := h.unlink (q := q) (v := p) (by simp [hitems])
        have herase : (a.items q).erase p = done ++ rest := by
          rw [hitems, List.erase_append_right _ hpd, List.erase_cons_head]
        rw [herase] at h₁
        have hother : (a.set q (done ++ rest)) r = some ys := by
          rw [Lists.set, Function.update_of_ne hne.symm, hr]
        have hfree : Free (a.set q (done ++ rest)) p := by
          intro q' xs' hq'
          by_cases he : q' = q
          · subst he
            rw [Lists.set, Function.update_self] at hq'
            obtain rfl := Option.some.inj hq'
            simp [Ne.symm hqp, hpd, hpr]
          · rw [Lists.set, Function.update_of_ne he] at hq'
            exact h.apart hq hq' (Ne.symm he) p (by simp)
        obtain ⟨m₂, hm₂, h₂⟩ := h₁.tail (q := r) (by simp [hother]) hfree
        rw [show (a.set q (done ++ rest)).items r = ys by simp [Lists.items, hother]] at h₂
        have hq₂ : ((a.set q (done ++ rest)).set r (ys ++ [p])) q = some (done ++ rest) := by
          rw [Lists.set, Function.update_of_ne hne, Lists.set, Function.update_self]
        obtain ⟨m', hm, hm'⟩ := ih h₂ done hq₂ (Function.update_self ..) (Nat.le_of_succ_le_succ hfuel)
        refine ⟨m', by simpa [hm₁, hm₂] using hm, ?_⟩
        have hset : ∀ us vs, (((a.set q (done ++ rest)).set r (ys ++ [p])).set q us).set r vs =
            (a.set q us).set r vs := by
          intro us vs
          unfold Lists.set
          rw [Function.update_comm hne.symm, Function.update_idem, Function.update_idem]
        have hfilter : rest.filter (fun x => decide (x ∉ p :: (rest.takeWhile fun x => !late x).filter lost)) =
            rest.filter fun x => decide (x ∉ (rest.takeWhile fun x => !late x).filter lost) :=
          List.filter_congr fun x hx => by
            have hxp : x ≠ p := fun e => hpr (e ▸ hx)
            simp [hxp]
        rw [hset] at hm'
        have htake : ((p :: rest).takeWhile fun x => !late x).filter lost =
            p :: (rest.takeWhile fun x => !late x).filter lost := by simp [hlate, hlost]
        rw [htake, List.filter_cons_of_neg (by simp), hfilter]
        simpa using hm'

/-- Nodes that are in no queue are queued in turn. -/
theorem tails (h : m.Holds a) (xs ys : List α) (hq : a q = some xs) (hnodup : ys.Nodup) (hfree : ∀ y ∈ ys, Free a y) :
    ∃ m' : QueueHeap α, m'.Holds (a.set q (xs ++ ys)) := by
  induction ys generalizing m a xs with
  | nil => exact ⟨m, by rwa [List.append_nil, Lists.set_same hq]⟩
  | cons y ys ih =>
    obtain ⟨hy, hys⟩ := List.nodup_cons.mp hnodup
    obtain ⟨m₁, -, h₁⟩ := h.tail (q := q) (by simp [hq]) (hfree y (by simp))
    rw [show a.items q = xs by simp [Lists.items, hq]] at h₁
    obtain ⟨m₂, h₂⟩ := ih h₁ (xs ++ [y]) (Function.update_self ..) hys fun v hv q' xs' hq' => by
      have hvfree := hfree v (List.mem_cons_of_mem _ hv)
      by_cases he : q' = q
      · subst he
        rw [Lists.set, Function.update_self] at hq'
        obtain rfl := Option.some.inj hq'
        have hout := hvfree q' xs hq
        have hvy : v ≠ y := fun e => hy (e ▸ hv)
        simp_all
      · rw [Lists.set, Function.update_of_ne he] at hq'
        exact hvfree q' xs' hq'
    refine ⟨m₂, ?_⟩
    rwa [Lists.set, Lists.set, Function.update_idem, List.append_assoc] at h₂

end Holds

/-- No queue is set up. -/
def empty : QueueHeap α := { next := fun _ => none, prev := fun _ => none, len := fun _ => 0 }

omit [DecidableEq α] in
theorem holds_empty : (empty : QueueHeap α).Holds fun _ => none := ⟨by simp, by simp⟩

/-- Whatever is done to queues in turn, with each node in one queue at most:
no assert fails and no `NULL` is followed, each call returns what it returns on
lists, and at the end a loop over any of the queues finds its list. -/
theorem run_lists (cs : List (QueueCall α)) (hcs : Lists.AllowsAll cs fun _ => none) :
    ∃ m, empty.run cs = some (m, (Lists.run cs fun _ => none).2) ∧
      ∀ q xs, (Lists.run cs fun _ => none).1 q = some xs → m.len q = xs.length ∧
        ∀ fuel, xs.length ≤ fuel → udxQueueForeach q fuel (m.next q) m = some xs := by
  obtain ⟨m, hrun, hm⟩ := holds_empty.run hcs
  exact ⟨m, hrun, fun q xs hq => ⟨(hm.queue hq).len, fun fuel hfuel => (hm.queue hq).udxQueueForeach hfuel⟩⟩

/-- Of three packets the second is found lost and sent first. -/
def lostCalls : List (QueueCall ℕ) :=
  [.init 0, .init 1, .tail 0 2, .tail 0 3, .tail 0 4, .unlink 0 3, .tail 1 3, .spliceTail 1 0, .shift 1]

theorem run_lists_lost : ∃ m, empty.run lostCalls = some (m, List.replicate 8 none ++ [some 3]) ∧
    udxQueueForeach 1 2 (m.next 1) m = some [2, 4] := by
  obtain ⟨m, hm, hq⟩ := run_lists lostCalls (by
    simp only [lostCalls, Lists.AllowsAll, Lists.Allows, Lists.call, Lists.set, Lists.items, Free,
      Function.update_apply]
    refine ⟨by simp, ?_, ⟨by simp, ?_⟩, ⟨by simp, ?_⟩, ⟨by simp, ?_⟩, by simp, ⟨by simp, ?_⟩, by simp, by simp, ?_⟩
    all_goals
      first
      | trivial
      | intro q xs hq
        split_ifs at hq <;> cases hq <;> simp_all)
  exact ⟨m, hm, (hq 1 [2, 4] rfl).2 2 (by decide)⟩

end QueueHeap

/-! ### The packets of a stream -/

/-- The nodes of the two queues of packets, and those in the packets. -/
inductive PacketNode
  | inflight
  | retransmit
  | packet (k : ℕ)
  deriving DecidableEq

def Tx.packetQueues (t : Tx) : QueueHeap.Lists PacketNode
  | .inflight => some (t.inflightQueue.map .packet)
  | .retransmit => some (t.retransmitQueue.map .packet)
  | .packet _ => none

/-- What the loop of `rack_detect_loss` asks of a packet. -/
def PacketNode.late (s : Stream) : PacketNode → Bool
  | .packet k => decide ((s.tx.pkts k).timeSent > s.cc.rackTimeSent)
  | _ => false

def PacketNode.lost (s : Stream) (reoWnd : ℕ) : PacketNode → Bool
  | .packet k => s.rackLost reoWnd k
  | _ => false

/-- The packets before the first one sent late are all that can be lost. -/
theorem rackLost_takeWhile (s : Stream) (reoWnd : ℕ) {queue : List ℕ}
    (hsorted : queue.Pairwise fun j k => (s.tx.pkts j).timeSent ≤ (s.tx.pkts k).timeSent) :
    ((queue.map PacketNode.packet).takeWhile fun p => !p.late s).filter (PacketNode.lost s reoWnd) =
      (queue.filter (s.rackLost reoWnd)).map PacketNode.packet := by
  induction queue with
  | nil => rfl
  | cons k rest ih =>
    obtain ⟨hfirst, hsorted'⟩ := List.pairwise_cons.mp hsorted
    by_cases hlate : s.cc.rackTimeSent < (s.tx.pkts k).timeSent
    · have hnone : (k :: rest).filter (s.rackLost reoWnd) = [] := by
        apply List.filter_eq_nil_iff.mpr
        intro j hj
        have hj' : s.cc.rackTimeSent < (s.tx.pkts j).timeSent := by
          obtain rfl | hj := List.mem_cons.mp hj
          · exact hlate
          · exact Nat.lt_of_lt_of_le hlate (hfirst j hj)
        simp [Stream.rackLost, Stream.rackBefore_of_late hj']
      rw [hnone, List.map_cons, List.takeWhile_cons_of_neg (by simp [PacketNode.late, hlate])]
      rfl
    · rw [List.map_cons, List.takeWhile_cons_of_pos (by simp [PacketNode.late, Nat.le_of_not_lt hlate])]
      cases hlost : s.rackLost reoWnd k with
      | false =>
        rw [List.filter_cons_of_neg (by simp [PacketNode.lost, hlost]), List.filter_cons_of_neg (by simp [hlost])]
        exact ih hsorted'
      | true =>
        rw [List.filter_cons_of_pos (by simp [PacketNode.lost, hlost]), List.filter_cons_of_pos hlost,
          List.map_cons, ih hsorted']

/-- The packets of a stream are in its queues once, so that there are nodes
for them. -/
theorem Queued.nodes {now n : ℕ} {t : Tx} (h : Queued now n t) :
    ∃ m : QueueHeap PacketNode, m.Holds t.packetQueues := by
  have h₀ := (QueueHeap.holds_empty (α := PacketNode)).init (q := .inflight) (by simp [QueueHeap.Lists.Allows])
  have h₁ := h₀.init (q := .retransmit) (by
    intro q' xs hq' _
    rw [QueueHeap.Lists.set, Function.update_apply] at hq'
    split_ifs at hq' with he
    simp_all)
  obtain ⟨m₂, h₂⟩ := h₁.tails (q := .inflight) [] (t.inflightQueue.map .packet) rfl
    (h.inflight.map fun _ _ => PacketNode.packet.inj) (by
      intro y hy q xs hq
      obtain ⟨k, -, rfl⟩ := List.mem_map.mp hy
      simp only [QueueHeap.Lists.set, Function.update_apply] at hq
      split_ifs at hq <;> simp_all)
  obtain ⟨m₃, h₃⟩ := h₂.tails (q := .retransmit) [] (t.retransmitQueue.map .packet) rfl
    (h.retransmit.map fun _ _ => PacketNode.packet.inj) (by
      intro y hy q xs hq
      obtain ⟨k, hk, rfl⟩ := List.mem_map.mp hy
      have hk' : k ∉ t.inflightQueue := fun hin => by
        have hkept := (h.kept k hin).2
        rw [(h.lost k hk).2] at hkept
        exact Bool.noConfusion hkept
      simp only [QueueHeap.Lists.set, Function.update_apply] at hq
      split_ifs at hq <;> cases hq <;> simp_all)
  refine ⟨m₃, ?_⟩
  convert h₃ using 1
  funext n
  cases n <;> simp [Tx.packetQueues, QueueHeap.Lists.set]

/-- In a state of a run, the loop of RACK over the nodes of the packets follows
no `NULL`, fails no assert, and leaves the two queues that the loop over the
lists leaves. -/
theorem Reach.rack_nodes {env : Env} {cfg : Config} {s₀ s : Stream} (h : Reach env cfg s₀)
    (hpath : AtomPath env s₀ s) :
    (∃ m : QueueHeap PacketNode, m.Holds s.tx.packetQueues) ∧
      ∀ m : QueueHeap PacketNode, m.Holds s.tx.packetQueues → ∀ fuel, s.tx.inflightQueue.length ≤ fuel →
        ∃ m', m.rackWalk .inflight .retransmit (PacketNode.late s) (PacketNode.lost s (rackUpdateReoWnd s)) fuel
            (m.next .inflight) = some m' ∧
          m'.Holds (rackLoop (rackUpdateReoWnd s) s.tx.inflightQueue {} s).1.tx.packetQueues := by
  have hq := hpath.queued h.queued
  refine ⟨hq.nodes, fun m hm fuel hfuel => ?_⟩
  obtain ⟨hin, hretr, -, -⟩ := rackLoop_spec (rackUpdateReoWnd s) hq.inflight {} 0 rfl hq.sorted hq.inflight
  have hgone := rackLost_takeWhile s (rackUpdateReoWnd s) hq.sorted
  obtain ⟨m', hwalk, hm'⟩ := hm.rackWalk (q := .inflight) (r := .retransmit) (PacketNode.late s)
    (PacketNode.lost s (rackUpdateReoWnd s)) [] (s.tx.inflightQueue.map .packet) rfl rfl (by simp) (by simpa using hfuel)
  rw [hgone] at hm'
  refine ⟨m', ?_, ?_⟩
  · rw [(hm.queue (q := .inflight) rfl).cycle.next_eq]
    exact hwalk
  · convert hm' using 1
    funext n
    cases n with
    | inflight =>
      simp only [Tx.packetQueues, QueueHeap.Lists.set, hin, List.filter_map, List.nil_append,
        Function.update_of_ne (show PacketNode.inflight ≠ .retransmit by simp), Function.update_self]
      refine congrArg (fun ks => some (ks.map PacketNode.packet)) (List.filter_congr fun k hk => ?_)
      have hmem : PacketNode.packet k ∈ (s.tx.inflightQueue.filter (s.rackLost (rackUpdateReoWnd s))).map .packet ↔
          k ∈ s.tx.inflightQueue.filter (s.rackLost (rackUpdateReoWnd s)) :=
        List.mem_map_of_injective fun _ _ => PacketNode.packet.inj
      simp only [Function.comp_apply, hmem, decide_not]
    | retransmit => simp [Tx.packetQueues, QueueHeap.Lists.set, hretr]
    | packet k => simp [Tx.packetQueues, QueueHeap.Lists.set]

/-- Three packets at once, of which the second is acknowledged, and one more. -/
def walkEvents : List Event :=
  [.call (.connect ⟨0, .inet⟩ 2 ⟨.inet, 1, [1, 2, 3, 4]⟩), .call (.write [[7]] false), .prepare,
    .call (.write [[8]] false), .prepare, .call (.write [[9]] false), .prepare, .tick 100,
    .recv (sackDatagram 0 1 2) true, .tick 10, .call (.write [[10]] false), .prepare, .tick 30]

/-- The first one is lost, the third was sent after the second. -/
theorem Reach.rack_nodes_lost : ∃ s, Reach .free rackConfig s ∧ s.tx.inflightQueue = [0, 2, 3] ∧
    ∃ m m' : QueueHeap PacketNode, m.rackWalk .inflight .retransmit (PacketNode.late s)
        (PacketNode.lost s (rackUpdateReoWnd s)) 3 (m.next .inflight) = some m' ∧
      m'.next .retransmit = some (.packet 0) ∧ m'.len .inflight = 2 := by
  have hreach : Reach .free rackConfig _ := .runEvents .init walkEvents
  obtain ⟨⟨m, hm⟩, hwalk⟩ := Reach.rack_nodes hreach (.refl _)
  have hqueue : (Udx.runEvents .free walkEvents (Udx.init .free rackConfig)).tx.inflightQueue = [0, 2, 3] := by
    decide +kernel
  obtain ⟨m', hm', h'⟩ := hwalk m hm 3 (by rw [hqueue]; decide)
  refine ⟨_, hreach, hqueue, m, m', hm', ?_, ?_⟩
  · rw [(h'.queue (q := .retransmit) rfl).cycle.next_eq]
    decide +kernel
  · rw [(h'.queue (q := .inflight) rfl).len]
    decide +kernel

end Udx
