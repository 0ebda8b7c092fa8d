/-
# Circular doubly linked lists

Nodes with a `next` and a `prev` pointer, in rings: from the head of a ring
the `next` pointers lead through its nodes back to the head, and the `prev`
pointers the other way. All that the operations on rings do is to link one
node to another.

Key definitions: `Links.link`, `Links.Chain`, `Links.Cycle`.
Key theorems: `Links.Cycle.insert`, `Links.Cycle.remove`, `Links.Cycle.splice`.
-/
import Mathlib.Data.List.Basic
import Mathlib.Logic.Function.Basic

/-- The pointers of all nodes. -/
structure Links (α : Type) where
  next : α → Option α
  prev : α → Option α

namespace Links

variable {α : Type}

/-- From `a` the pointers lead through `xs` to `b`, and back. -/
def Chain (r : Links α) : α → List α → α → Prop
  | a, [], b => r.next a = some b ∧ r.prev b = some a
  | a, x :: xs, b => r.next a = some x ∧ r.prev x = some a ∧ Chain r x xs b

/-- The ring of `q` is `xs`. -/
structure Cycle (r : Links α) (q : α) (xs : List α) : Prop where
  nodup : (q :: xs).Nodup
  chain : r.Chain q xs q

namespace Chain

variable {r r' : Links α} {a b m n p v : α} {xs ys : List α}

theorem append : r.Chain a (xs ++ m :: ys) b ↔ r.Chain a xs m ∧ r.Chain m ys b := by
  induction xs generalizing a with
  | nil => simp [Chain, and_assoc]
  | cons x xs ih => simp [Chain, ih, and_assoc]

theorem congr (h : r.Chain a xs b) (hn : ∀ x ∈ a :: xs, r'.next x = r.next x)
    (hp : ∀ x, x ∈ xs ∨ x = b → r'.prev x = r.prev x) : r'.Chain a xs b := by
  induction xs generalizing a with
  | nil =>
    obtain ⟨h1, h2⟩ := h
    exact ⟨(hn a (by simp)).trans h1, (hp b (.inr rfl)).trans h2⟩
  | cons x xs ih =>
    obtain ⟨h1, h2, h3⟩ := h
    refine ⟨(hn a (by simp)).trans h1, (hp x (by simp)).trans h2, ih h3 (fun y hy => ?_) fun y hy => ?_⟩
    · exact hn y (List.mem_cons_of_mem _ hy)
    · exact hp y (hy.imp_left (List.mem_cons_of_mem _))

theorem next_eq (h : r.Chain a xs b) : r.next a = (xs ++ [b]).head? := by
  cases xs with
  | nil => exact h.1
  | cons x xs => exact h.1

theorem prev_eq (h : r.Chain a xs b) : r.prev b = (a :: xs).getLast? := by
  induction xs generalizing a with
  | nil => exact h.2
  | cons x xs ih =>
    rw [List.getLast?_cons_cons]
    exact ih h.2.2

/-- Two chains end to end. -/
theorem join (h : r.Chain a xs m) (hm : (ys ++ [b]).head? = some m)
    (h' : ∀ y ys', ys = y :: ys' → r.Chain y ys' b) : r.Chain a (xs ++ ys) b := by
  cases ys with
  | nil =>
    obtain rfl : b = m := by simpa using hm
    simpa using h
  | cons y ys =>
    obtain rfl : y = m := by simpa using hm
    exact append.mpr ⟨h, h' y ys rfl⟩

end Chain

namespace Cycle

variable {r : Links α} {q v : α} {xs as bs : List α}

theorem nil (h : r.next q = some q) (h' : r.prev q = some q) : r.Cycle q [] := ⟨by simp, h, h'⟩

theorem next_eq (h : r.Cycle q xs) : r.next q = (xs ++ [q]).head? := h.chain.next_eq

theorem prev_eq (h : r.Cycle q xs) : r.prev q = (q :: xs).getLast? := h.chain.prev_eq

/-- The neighbours of a node in a ring. -/
theorem next_mem (h : r.Cycle q (as ++ v :: bs)) : r.next v = (bs ++ [q]).head? :=
  (Chain.append.mp h.chain).2.next_eq

theorem prev_mem (h : r.Cycle q (as ++ v :: bs)) : r.prev v = (q :: as).getLast? :=
  (Chain.append.mp h.chain).1.prev_eq

end Cycle

variable [DecidableEq α]

/-- Node `n` comes after node `p`. -/
def link (r : Links α) (p n : α) : Links α :=
  { next := Function.update r.next p (some n), prev := Function.update r.prev n (some p) }

/-- The pointers of node `v` are cleared. -/
def clear (r : Links α) (v : α) : Links α :=
  { next := Function.update r.next v none, prev := Function.update r.prev v none }

namespace Chain

variable {r : Links α} {a b m n p v : α} {xs ys : List α}

/-- The last node of a chain is linked to another one. -/
theorem relink (h : r.Chain a xs m) (hnodup : (a :: xs).Nodup) (hn : n ∉ xs)
    (hp : (a :: xs).getLast? = some p) : (r.link p n).Chain a xs n := by
  induction xs generalizing a with
  | nil =>
    obtain rfl : a = p := by simpa using hp
    simp [Chain, link]
  | cons x xs ih =>
    obtain ⟨h1, h2, h3⟩ := h
    rw [List.getLast?_cons_cons] at hp
    obtain ⟨ha, hnodup'⟩ := List.nodup_cons.mp hnodup
    have hap : a ≠ p := fun e => ha (e ▸ List.mem_of_getLast? hp)
    have hxn : x ≠ n := fun e => hn (by simp [e])
    refine ⟨?_, ?_, ih h3 hnodup' (fun hx => hn (List.mem_cons_of_mem _ hx)) hp⟩
    · simpa [link, Function.update_of_ne hap] using h1
    · simpa [link, Function.update_of_ne hxn] using h2

/-- A chain without the two nodes linked stays as it is. -/
theorem link (h : r.Chain a xs b) (hp : p ∉ a :: xs) (hn : n ∉ xs) (hb : n ≠ b) :
    (r.link p n).Chain a xs b := by
  refine h.congr (fun x hx => ?_) fun x hx => ?_
  · exact Function.update_of_ne (ne_of_mem_of_not_mem hx hp) _ _
  · refine Function.update_of_ne (fun e => ?_) _ _
    rcases hx with hx | rfl
    · exact hn (e ▸ hx)
    · exact hb e.symm

theorem clear (h : r.Chain a xs b) (hv : v ∉ a :: xs) (hb : v ≠ b) : (r.clear v).Chain a xs b := by
  refine h.congr (fun x hx => ?_) fun x hx => ?_
  · exact Function.update_of_ne (ne_of_mem_of_not_mem hx hv) _ _
  · refine Function.update_of_ne (fun e => ?_) _ _
    rcases hx with hx | rfl
    · exact hv (e ▸ List.mem_cons_of_mem _ hx)
    · exact hb e.symm

end Chain

namespace Cycle

variable {r : Links α} {q t v n p : α} {xs ys as bs : List α}

/-- A ring without the two nodes linked stays as it is. -/
theorem link (h : r.Cycle q xs) (hp : p ∉ q :: xs) (hn : n ∉ q :: xs) : (r.link p n).Cycle q xs := by
  simp only [List.mem_cons, not_or] at hn
  exact ⟨h.nodup, h.chain.link hp hn.2 hn.1⟩

theorem clear (h : r.Cycle q xs) (hv : v ∉ q :: xs) : (r.clear v).Cycle q xs :=
  ⟨h.nodup, h.chain.clear hv fun e => hv (by simp [e])⟩

/-- A node goes between two neighbours of a ring. -/
theorem insert (h : r.Cycle q (as ++ bs)) (hv : v ∉ q :: (as ++ bs)) (hp : (q :: as).getLast? = some p)
    (hn : (bs ++ [q]).head? = some n) : ((r.link p v).link v n).Cycle q (as ++ v :: bs) := by
  have hnodup := h.nodup
  simp only [List.nodup_cons, List.nodup_append, List.mem_append, List.mem_cons, not_or] at hnodup hv
  obtain ⟨⟨hqa, hqb⟩, hna, hnb, hab⟩ := hnodup
  obtain ⟨hvq, hva, hvb⟩ := hv
  have hpa : p = q ∨ p ∈ as := by simpa using List.mem_of_getLast? hp
  have hqas : (q :: as).Nodup := List.nodup_cons.mpr ⟨hqa, hna⟩
  refine ⟨?_, Chain.append.mpr ⟨?_, ?_⟩⟩
  · simp only [List.nodup_cons, List.nodup_append, List.mem_append, List.mem_cons, not_or]
    refine ⟨⟨hqa, Ne.symm hvq, hqb⟩, hna, ⟨hvb, hnb⟩, fun a ha b hb => ?_⟩
    rcases hb with rfl | hb
    · exact fun e => hva (e ▸ ha)
    · exact hab a ha b hb
  · have hfront : ∃ m, r.Chain q as m := by
      cases bs with
      | nil => exact ⟨q, by simpa using h.chain⟩
      | cons b bs => exact ⟨b, (Chain.append.mp h.chain).1⟩
    obtain ⟨m, hm⟩ := hfront
    have hnv : n ≠ v ∧ n ∉ as := by
      have hmem : n ∈ bs ∨ n = q := by simpa using List.mem_of_mem_head? hn
      rcases hmem with hmem | rfl
      · exact ⟨fun e => hvb (e ▸ hmem), fun hna => hab n hna n hmem rfl⟩
      · exact ⟨Ne.symm hvq, hqa⟩
    exact (hm.relink hqas hva hp).link (by simp [hvq, hva]) hnv.2 hnv.1
  · cases bs with
    | nil =>
      obtain rfl : q = n := by simpa using hn
      simp [Chain, Links.link]
    | cons b bs =>
      obtain rfl : b = n := by simpa using hn
      have hb := (Chain.append.mp h.chain).2
      simp only [List.mem_cons, not_or, List.nodup_cons] at hvb hnb hqb
      refine ⟨by simp [Links.link], by simp [Links.link], (hb.link ?_ hvb.2 hvq).link ?_ hnb.1 (Ne.symm hqb.1)⟩
      · intro hpb
        rcases hpa with rfl | hpa
        · simp [hqb] at hpb
        · exact hab p hpa p hpb rfl
      · simp [hvb]

/-- A node leaves its ring. -/
theorem remove (h : r.Cycle q (as ++ v :: bs)) (hp : r.prev v = some p) (hn : r.next v = some n) :
    ((r.link p n).clear v).Cycle q (as ++ bs) := by
  have hlast : (q :: as).getLast? = some p := h.prev_mem ▸ hp
  have hhead : (bs ++ [q]).head? = some n := h.next_mem ▸ hn
  obtain ⟨hfront, hback⟩ := Chain.append.mp h.chain
  have hnodup := h.nodup
  simp only [List.nodup_cons, List.nodup_append, List.mem_append, List.mem_cons, not_or] at hnodup
  obtain ⟨⟨hqa, hqv, hqb⟩, hna, ⟨hvb, hnb⟩, hab⟩ := hnodup
  have hva : v ∉ as := fun hv => hab v hv v (.inl rfl) rfl
  have hpa : p = q ∨ p ∈ as := by simpa using List.mem_of_getLast? hlast
  have hnas : n ∉ as := by
    have hmem : n ∈ bs ∨ n = q := by simpa using List.mem_of_mem_head? hhead
    rcases hmem with hmem | rfl
    · exact fun hn => hab n hn n (.inr hmem) rfl
    · exact hqa
  have hshort : (q :: (as ++ bs)).Nodup := by
    simp only [List.nodup_cons, List.nodup_append, List.mem_append, not_or]
    exact ⟨⟨hqa, hqb⟩, hna, hnb, fun a ha b hb => hab a ha b (.inr hb)⟩
  have hlinked : (r.link p n).Cycle q (as ++ bs) := by
    refine ⟨hshort, (hfront.relink (List.nodup_cons.mpr ⟨hqa, hna⟩) hnas hlast).join hhead fun b bs' he => ?_⟩
    subst he
    obtain rfl : b = n := by simpa using hhead
    simp only [List.mem_cons, not_or, List.nodup_cons] at hqb hnb
    refine hback.2.2.link (fun hpb => ?_) hnb.1 (Ne.symm hqb.1)
    rcases hpa with rfl | hpa
    · simp [hqb] at hpb
    · exact hab p hpa p (.inr hpb) rfl
  exact hlinked.clear (by simp [Ne.symm hqv, hva, hvb])

/-- The nodes of one ring go to the end of another. -/
theorem splice (h : r.Cycle q xs) (h' : r.Cycle t (n :: ys)) (hd : ∀ x ∈ q :: xs, x ∉ t :: n :: ys)
    (hp : (q :: xs).getLast? = some p) {l : α} (hl : (n :: ys).getLast? = some l) :
    (((r.link p n).link l q)).Cycle q (xs ++ n :: ys) := by
  have hnodup := h.nodup
  have hnodup' := h'.nodup
  obtain ⟨hqx, hx⟩ := List.nodup_cons.mp hnodup
  obtain ⟨ht, hys⟩ := List.nodup_cons.mp hnodup'
  have hpmem := List.mem_of_getLast? hp
  have hlmem := List.mem_of_getLast? hl
  have hnx : n ∉ xs := fun hn => hd n (List.mem_cons_of_mem _ hn) (by simp)
  have hqn : q ∉ n :: ys := fun hq => hd q (by simp) (List.mem_cons_of_mem _ hq)
  simp only [List.mem_cons, not_or] at hqn
  refine ⟨?_, Chain.append.mpr ⟨?_, ?_⟩⟩
  · rw [← List.cons_append, List.nodup_append]
    exact ⟨hnodup, hys, fun a ha b hb e => hd a ha (List.mem_cons_of_mem _ (e ▸ hb))⟩
  · refine (h.chain.relink hnodup hnx hp).link (fun hlx => ?_) hqx hqn.1
    exact hd l hlx (List.mem_cons_of_mem _ hlmem)
  · have hback : (r.link p n).Chain n ys t := by
      refine h'.chain.2.2.link (fun hpn => hd p hpmem (List.mem_cons_of_mem _ hpn)) (List.nodup_cons.mp hys).1 ?_
      exact fun e => ht (by simp [e])
    exact hback.relink hys hqn.2 hl

end Cycle

end Links
