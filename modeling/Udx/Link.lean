/-
# Intrusive doubly linked lists

Lists whose nodes carry their own `next` and `prev` pointers, with a head
pointer outside. `add` puts a node in front and `remove` takes one out, in
constant time and without clearing the pointers of the node removed: a walk
that stands on such a node goes on from its stale `next` (`Leads`), and comes to
an end (`Ends`).

Key definitions: `Link`, `Link.add`, `Link.remove`, `Link.Rep`, `Link.Leads`,
`Link.Ends`.
Key theorems: `Link.Rep.add`, `Link.Rep.remove`, `Link.Leads.remove`,
`Link.Leads.ends`, `Link.Ends.remove`.
-/
import Mathlib.Data.List.Basic
import Mathlib.Logic.Function.Basic

/-- The pointers of all nodes. -/
structure Link where
  next : ℕ → Option ℕ := fun _ => none
  prev : ℕ → Option ℕ := fun _ => none

namespace Link

def setNext (l : Link) (x : ℕ) (n : Option ℕ) : Link := { l with next := Function.update l.next x n }

def setPrev (l : Link) (x : ℕ) (p : Option ℕ) : Link := { l with prev := Function.update l.prev x p }

/-- Node `v` becomes the head of the list. -/
def add (l : Link) (head : Option ℕ) (v : ℕ) : Link :=
  let l := (l.setPrev v none).setNext v head
  match head with
  | none => l
  | some h => l.setPrev h (some v)

/-- The node after `v` gets the one before `v` as its `prev`. -/
def unlinkNext (l : Link) (v : ℕ) : Link :=
  match l.next v with
  | none => l
  | some n => l.setPrev n (l.prev v)

/-- Node `v` leaves the list; the second component is the new head. -/
def remove (l : Link) (head : Option ℕ) (v : ℕ) : Link × Option ℕ :=
  let l := l.unlinkNext v
  match l.prev v with
  | none => (l, l.next v)
  | some p => (l.setNext p (l.next v), head)

/-- The list from `head` on is `xs`. -/
structure Rep (l : Link) (head : Option ℕ) (xs : List ℕ) : Prop where
  nodup : xs.Nodup
  head : head = xs.head?
  prev : ∀ {as x bs}, xs = as ++ x :: bs → l.prev x = as.getLast?
  next : ∀ {as x bs}, xs = as ++ x :: bs → l.next x = bs.head?

section

variable {l : Link} {head : Option ℕ} {xs : List ℕ} {v x : ℕ}

theorem Rep.nil (l : Link) : Rep l none [] :=
  ⟨List.nodup_nil, rfl, fun h => by simp at h, fun h => by simp at h⟩

/-- A list depends on the pointers of its nodes only. -/
theorem Rep.congr {l' : Link} (h : Rep l head xs) (hp : ∀ x ∈ xs, l'.prev x = l.prev x)
    (hn : ∀ x ∈ xs, l'.next x = l.next x) : Rep l' head xs := by
  refine ⟨h.nodup, h.head, fun he => ?_, fun he => ?_⟩
  · rw [hp _ (by simp [he]), h.prev he]
  · rw [hn _ (by simp [he]), h.next he]

/-! ### Adding -/

theorem add_next_of_ne (hx : x ≠ v) : (l.add head v).next x = l.next x := by
  unfold add setPrev setNext
  cases head <;> simp [Function.update_of_ne hx]

theorem add_prev_of_ne (hx : x ≠ v) (hh : head ≠ some x) : (l.add head v).prev x = l.prev x := by
  unfold add setPrev setNext
  cases head with
  | none => simp [Function.update_of_ne hx]
  | some h =>
    have hne : x ≠ h := fun e => hh (by rw [e])
    simp [Function.update_of_ne hx, Function.update_of_ne hne]

theorem add_self (hv : head ≠ some v) :
    (l.add head v).next v = head ∧ (l.add head v).prev v = none := by
  unfold add setPrev setNext
  cases head with
  | none => simp
  | some h =>
    have hne : v ≠ h := fun e => hv (by rw [e])
    simp [Function.update_of_ne hne]

theorem add_prev_head {h : ℕ} : (l.add (some h) v).prev h = some v := by
  simp [add, setPrev]

theorem Rep.add (h : Rep l head xs) (hv : v ∉ xs) : Rep (l.add head v) (some v) (v :: xs) := by
  have hhead : head ≠ some v := by
    rw [h.head]
    exact fun e => hv (List.mem_of_mem_head? e)
  obtain ⟨hnext, hprev⟩ := add_self (l := l) hhead
  refine ⟨List.nodup_cons.mpr ⟨hv, h.nodup⟩, rfl, fun {as x bs} he => ?_, fun {as x bs} he => ?_⟩
  · cases as with
    | nil =>
      obtain ⟨rfl, rfl⟩ := List.cons.inj he
      exact hprev
    | cons a as =>
      obtain ⟨rfl, rfl⟩ := List.cons.inj he
      have hx : x ≠ v := fun e => hv (by simp [e])
      cases as with
      | nil =>
        have hh : head = some x := by rw [h.head]; rfl
        rw [hh, add_prev_head]
        rfl
      | cons b as =>
        have hb : head = some b := by rw [h.head]; rfl
        have hne : head ≠ some x := by
          rw [hb]
          intro e
          have hnd := h.nodup
          simp [Option.some.inj e] at hnd
        rw [add_prev_of_ne hx hne, h.prev rfl, List.getLast?_cons_cons]
  · cases as with
    | nil =>
      obtain ⟨rfl, rfl⟩ := List.cons.inj he
      rw [hnext, h.head]
    | cons a as =>
      obtain ⟨rfl, rfl⟩ := List.cons.inj he
      have hx : x ≠ v := fun e => hv (by simp [e])
      rw [add_next_of_ne hx, h.next rfl]

/-- A list that does not hold the new node's neighbour stays as it is. -/
theorem Rep.add_other {head' : Option ℕ} {ys : List ℕ} (h : Rep l head' ys) (hv : v ∉ ys)
    (hhead : ∀ x ∈ head, x ∉ ys) : Rep (l.add head v) head' ys := by
  refine h.congr (fun x hx => ?_) (fun x hx => ?_)
  · exact add_prev_of_ne (fun e => hv (e ▸ hx)) fun e => hhead x e hx
  · exact add_next_of_ne fun e => hv (e ▸ hx)

/-! ### Removing -/

theorem unlinkNext_next (l : Link) (v : ℕ) : (l.unlinkNext v).next = l.next := by
  unfold unlinkNext
  split <;> rfl

theorem unlinkNext_prev_of_ne (h : l.next v ≠ some x) :
    (l.unlinkNext v).prev x = l.prev x := by
  unfold unlinkNext
  split
  · rfl
  · next n hn =>
    have hne : x ≠ n := fun e => h (by rw [hn, e])
    simp [setPrev, Function.update_of_ne hne]

theorem unlinkNext_prev (h : l.next v = some x) : (l.unlinkNext v).prev x = l.prev v := by
  unfold unlinkNext
  rw [h]
  simp [setPrev]

theorem remove_prev (l : Link) (head : Option ℕ) (v : ℕ) :
    (l.remove head v).1.prev = (l.unlinkNext v).prev := by
  unfold remove
  dsimp only
  split <;> rfl

theorem remove_next_of_ne (h : (l.unlinkNext v).prev v ≠ some x) :
    (l.remove head v).1.next x = l.next x := by
  unfold remove
  dsimp only
  split
  · rw [unlinkNext_next]
  · next p hp =>
    have hne : x ≠ p := fun e => h (by rw [hp, e])
    simp [setNext, Function.update_of_ne hne, unlinkNext_next]

theorem remove_next (h : (l.unlinkNext v).prev v = some x) :
    (l.remove head v).1.next x = l.next v := by
  unfold remove
  dsimp only
  rw [h]
  simp [setNext, unlinkNext_next]

section

variable {as bs : List ℕ} (h : Rep l head (as ++ v :: bs))
include h

theorem Rep.not_mem : v ∉ as ∧ v ∉ bs ∧ ∀ x ∈ as, x ∉ bs := by
  have hnd := h.nodup
  rw [List.nodup_append] at hnd
  obtain ⟨-, hb, hab⟩ := hnd
  refine ⟨fun hv => hab v hv v (by simp) rfl, (List.nodup_cons.mp hb).1, fun x hx hx' => ?_⟩
  exact hab x hx x (by simp [hx']) rfl

/-- The `prev` of the node removed is read after its successor was changed. -/
theorem Rep.unlinkNext_prev_self : (l.unlinkNext v).prev v = as.getLast? := by
  rw [unlinkNext_prev_of_ne, h.prev rfl]
  rw [h.next rfl]
  exact fun e => h.not_mem.2.1 (List.mem_of_mem_head? e)

theorem Rep.remove_split :
    Rep (l.remove head v).1 (l.remove head v).2 (as ++ bs) := by
  have hself := h.unlinkNext_prev_self
  obtain ⟨hva, hvb, hab⟩ := h.not_mem
  refine ⟨?_, ?_, fun {cs x ds} he => ?_, fun {cs x ds} he => ?_⟩
  · exact h.nodup.sublist (by simp)
  · unfold remove
    dsimp only
    rw [hself]
    cases as with
    | nil => simp [unlinkNext_next, h.next rfl]
    | cons a as' =>
      have hlast : ∃ p, (a :: as').getLast? = some p := ⟨_, List.getLast?_cons⟩
      obtain ⟨p, hp⟩ := hlast
      rw [hp]
      simpa using h.head
  · -- the only `prev` that changes is that of the successor
    rw [remove_prev]
    rcases List.append_eq_append_iff.mp he with ⟨es, hcs, hbs⟩ | ⟨es, has, hds⟩
    · have hx : x ∈ bs := by simp [hbs]
      by_cases hes : es = []
      · subst hes
        rw [unlinkNext_prev (by rw [h.next rfl, hbs]; rfl), h.prev rfl, hcs, List.append_nil]
      · have hne : l.next v ≠ some x := by
          rw [h.next rfl, hbs]
          obtain ⟨e, es', rfl⟩ := List.exists_cons_of_ne_nil hes
          intro hex
          have hnd := h.nodup
          simp only [List.cons_append, List.head?_cons, Option.some.injEq] at hex
          simp [hbs, hex, List.nodup_append] at hnd
        rw [unlinkNext_prev_of_ne hne, h.prev (show _ = (as ++ v :: es) ++ x :: ds by simp [hbs]), hcs]
        obtain ⟨e, es', rfl⟩ := List.exists_cons_of_ne_nil hes
        rw [List.getLast?_append_cons, List.getLast?_append_cons, List.getLast?_cons_cons]
    · cases es with
      | nil =>
        have hbs : bs = x :: ds := by simpa using hds.symm
        rw [unlinkNext_prev (by rw [h.next rfl, hbs]; rfl), h.prev rfl, has, List.append_nil]
      | cons e es =>
        obtain ⟨rfl, hds'⟩ := List.cons.inj hds
        have hx : x ∈ as := by simp [has]
        have hne : l.next v ≠ some x := by
          rw [h.next rfl]
          exact fun hex => hab x hx (List.mem_of_mem_head? hex)
        rw [unlinkNext_prev_of_ne hne,
          h.prev (show _ = cs ++ x :: (es ++ v :: bs) by simp [has])]
  · rcases List.append_eq_append_iff.mp he with ⟨es, hcs, hbs⟩ | ⟨es, has, hds⟩
    · have hx : x ∈ bs := by simp [hbs]
      have hne : (l.unlinkNext v).prev v ≠ some x := by
        rw [hself]
        exact fun hex => hab x (List.mem_of_getLast? hex) hx
      rw [remove_next_of_ne hne, h.next (show _ = (as ++ v :: es) ++ x :: ds by simp [hbs])]
    · cases es with
      | nil =>
        have hbs : bs = x :: ds := by simpa using hds.symm
        have hne : (l.unlinkNext v).prev v ≠ some x := by
          rw [hself]
          exact fun hex => hab x (List.mem_of_getLast? hex) (by simp [hbs])
        rw [remove_next_of_ne hne, h.next (show _ = (as ++ [v]) ++ x :: ds by simp [hbs])]
      | cons e es =>
        obtain ⟨rfl, hds'⟩ := List.cons.inj hds
        cases es with
        | nil =>
          have hlast : (l.unlinkNext v).prev v = some x := by
            rw [hself, has]
            simp
          rw [remove_next hlast, h.next rfl, hds']
          rfl
        | cons f es =>
          have hne : (l.unlinkNext v).prev v ≠ some x := by
            rw [hself, has, List.getLast?_append_cons, List.getLast?_cons_cons]
            intro hex
            have hmem := List.mem_of_getLast? hex
            have hnd := h.nodup
            rw [has] at hnd
            simp only [List.append_assoc, List.cons_append, List.nodup_append, List.nodup_cons] at hnd
            obtain ⟨-, ⟨hxn, -⟩, -⟩ := hnd
            exact hxn (by simp only [List.mem_cons, List.mem_append] at hmem ⊢; tauto)
          rw [remove_next_of_ne hne,
            h.next (show _ = cs ++ x :: (f :: es ++ v :: bs) by simp [has]), hds']
          rfl

end

theorem Rep.remove (h : Rep l head xs) (hv : v ∈ xs) :
    Rep (l.remove head v).1 (l.remove head v).2 (xs.erase v) := by
  obtain ⟨as, bs, rfl⟩ := List.append_of_mem hv
  rw [List.erase_append_right _ h.not_mem.1, List.erase_cons_head]
  exact h.remove_split

/-- A list that does not hold the node stays as it is. -/
theorem Rep.remove_other {head' : Option ℕ} {ys : List ℕ} (h : Rep l head xs) (hv : v ∈ xs)
    (h' : Rep l head' ys) (hd : ∀ x ∈ xs, x ∉ ys) : Rep (l.remove head v).1 head' ys := by
  obtain ⟨as, bs, rfl⟩ := List.append_of_mem hv
  refine h'.congr (fun x hx => ?_) (fun x hx => ?_)
  · rw [remove_prev, unlinkNext_prev_of_ne]
    rw [h.next rfl]
    intro e
    have hmem := List.mem_of_mem_head? e
    exact hd x (by simp [hmem]) hx
  · refine remove_next_of_ne ?_
    rw [h.unlinkNext_prev_self]
    intro e
    have hmem := List.mem_of_getLast? e
    exact hd x (by simp [hmem]) hx

/-- A node outside the list keeps its stale `next`. -/
theorem Rep.remove_next_stale (h : Rep l head xs) (hv : v ∈ xs) (hx : x ∉ xs ∨ x = v) :
    (l.remove head v).1.next x = l.next x := by
  obtain ⟨as, bs, rfl⟩ := List.append_of_mem hv
  refine remove_next_of_ne ?_
  rw [h.unlinkNext_prev_self]
  intro e
  have hmem := List.mem_of_getLast? e
  rcases hx with hx | rfl
  · exact hx (by simp [hmem])
  · exact h.not_mem.1 hmem

/-! ### Walking -/

/-- From pointer `n`, a walk comes to the nodes `post`, past removed nodes with
property `P` at most. -/
inductive Leads (l : Link) (xs : List ℕ) (P : ℕ → Prop) : Option ℕ → List ℕ → Prop
  | here {n : Option ℕ} {post : List ℕ} (h : n = post.head?) : Leads l xs P n post
  | stale {v : ℕ} {post : List ℕ} (hv : v ∉ xs) (hp : P v) (h : Leads l xs P (l.next v) post) :
    Leads l xs P (some v) post

section

variable {P Q : ℕ → Prop} {n : Option ℕ} {pre post : List ℕ}

theorem Leads.none (h : Leads l xs P none post) : post = [] := by
  cases h with
  | here h => exact List.head?_eq_none_iff.mp h.symm

/-- The node a walk comes to is the next one of the list, or a removed one. -/
theorem Leads.some {v : ℕ} (h : Leads l xs P (some v) post) :
    (∃ rest, post = v :: rest) ∨ v ∉ xs ∧ P v ∧ Leads l xs P (l.next v) post := by
  cases h with
  | here h =>
    cases post with
    | nil => cases h
    | cons x rest =>
      obtain rfl := Option.some.inj h
      exact .inl ⟨rest, rfl⟩
  | stale hv hp h => exact .inr ⟨hv, hp, h⟩

/-- After a node of the list come the rest of it. -/
theorem Rep.leads (h : Rep l head (pre ++ v :: post)) :
    Leads l (pre ++ v :: post) P (l.next v) post := .here (h.next rfl)

theorem Leads.imp (h : Leads l xs P n post) (hPQ : ∀ v, P v → Q v) : Leads l xs Q n post := by
  induction h with
  | here h => exact .here h
  | stale hv hp _ ih => exact .stale hv (hPQ _ hp) ih

/-- A walk depends on the pointers of the removed nodes only. -/
theorem Leads.congr {l' : Link} (h : Leads l xs P n post)
    (hn : ∀ v, v ∉ xs → P v → l'.next v = l.next v) : Leads l' xs P n post := by
  induction h with
  | here h => exact .here h
  | stale hv hp _ ih =>
    refine .stale hv hp ?_
    rw [hn _ hv hp]
    exact ih

/-- A walk outlasts the removal of any node. -/
theorem Leads.remove (h : Rep l head xs) (hxs : xs = pre ++ post) (hv : v ∈ xs) (hp : P v)
    (hl : Leads l xs P n post) :
    Leads (l.remove head v).1 (xs.erase v) P n (post.erase v) := by
  induction hl with
  | @here n post hn =>
    cases post with
    | nil => exact .here hn
    | cons x post =>
      by_cases hx : x = v
      · subst hx
        rw [hn, List.erase_cons_head]
        refine .stale (fun hm => ?_) hp (.here ?_)
        · exact (List.Nodup.not_mem_erase h.nodup) hm
        · rw [h.remove_next_stale hv (.inr rfl), h.next hxs]
      · rw [List.erase_cons_tail (by simpa using hx)]
        exact .here hn
  | stale hw hpw _ ih =>
    refine .stale (fun hm => hw (List.mem_of_mem_erase hm)) hpw ?_
    rw [h.remove_next_stale hv (.inl hw)]
    exact ih hxs

end

/-! ### Lengths -/

/-- A walk from pointer `n` comes to `m` nodes, then to its end. -/
inductive Ends (l : Link) : Option ℕ → ℕ → Prop
  | none : Ends l none 0
  | some {v m : ℕ} (h : Ends l (l.next v) m) : Ends l (some v) (m + 1)

section

variable {n : Option ℕ} {pre post : List ℕ}

theorem Ends.unique {m m' : ℕ} (h : Ends l n m) (h' : Ends l n m') : m = m' := by
  induction h generalizing m' with
  | none =>
    cases h'
    rfl
  | some _ ih =>
    cases h' with
    | some h' => rw [ih h']

/-- From a node of a list the walk comes to the rest of the list. -/
theorem Rep.ends (pre post : List ℕ) (h : Rep l head (pre ++ post)) : Ends l post.head? post.length := by
  induction post generalizing pre with
  | nil => exact .none
  | cons v post ih =>
    refine .some ?_
    rw [h.next rfl]
    exact ih (pre ++ [v]) (by simpa using h)

/-- A walk past removed nodes ends, too. -/
theorem Leads.ends {P : ℕ → Prop} (h : Rep l head xs) (hxs : xs = pre ++ post) (hl : Leads l xs P n post) :
    ∃ m, Ends l n m := by
  induction hl with
  | here hn => exact ⟨_, hn ▸ Rep.ends _ _ (hxs ▸ h)⟩
  | stale _ _ _ ih =>
    obtain ⟨m, hm⟩ := ih hxs
    exact ⟨m + 1, .some hm⟩

/-- The removal of a node makes no walk longer. -/
theorem Ends.remove (h : Rep l head xs) (hv : v ∈ xs) {m : ℕ} (he : Ends l n m) :
    ∃ m' ≤ m, Ends (l.remove head v).1 n m' := by
  obtain ⟨as, bs, rfl⟩ := List.append_of_mem hv
  induction m using Nat.strongRecOn generalizing n with
  | ind m ih =>
    cases he with
    | none => exact ⟨0, Nat.le_refl _, .none⟩
    | @some x m he =>
      by_cases hx : (l.unlinkNext v).prev v = Option.some x
      · -- the node before `v` now leads to the one after it
        have hnext : l.next x = Option.some v := by
          rw [h.unlinkNext_prev_self] at hx
          obtain ⟨as', rfl⟩ := List.getLast?_eq_some_iff.mp hx
          exact h.next (show _ = as' ++ x :: (v :: bs) by simp)
        rw [hnext] at he
        cases he with
        | @some _ m he =>
          obtain ⟨m', hle, hm'⟩ := ih m (by omega) he
          refine ⟨m' + 1, by omega, .some ?_⟩
          rwa [remove_next hx]
      · obtain ⟨m', hle, hm'⟩ := ih m (Nat.lt_succ_self m) he
        refine ⟨m' + 1, by omega, .some ?_⟩
        rwa [remove_next_of_ne hx]

end

end

end Link
