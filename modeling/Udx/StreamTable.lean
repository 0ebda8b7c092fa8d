/-
# The stream table (udx_stream_table.c)

A hash table with chaining over 32-bit ids. An entry replaces the one of its
id in place, or goes to the end of its chain; it is removed by id. Every id
is at most once in its chain, so that `get` reads a finite map.

Key definitions: `StreamTable`, `StreamTable.get`, `StreamTable.set`,
`StreamTable.remove`.
Key theorems: `StreamTable.get_set`, `StreamTable.get_remove`.
-/
import Udx.Serial
import Mathlib.Data.List.Basic
import Mathlib.Logic.Function.Basic

open Serial

/-! ### Chains -/

namespace Chain

variable {β : Type}

/-- The entry of an id in a chain. -/
def get (id : SeqNo) : List (SeqNo × β) → Option β
  | [] => none
  | (i, e) :: rest => if i = id then some e else get id rest

/-- Replace the entry of an id, or append it. -/
def set (id : SeqNo) (new : β) : List (SeqNo × β) → List (SeqNo × β)
  | [] => [(id, new)]
  | (i, e) :: rest => if i = id then (id, new) :: rest else (i, e) :: set id new rest

/-- Remove the first entry of an id. -/
def remove (id : SeqNo) : List (SeqNo × β) → List (SeqNo × β)
  | [] => []
  | (i, e) :: rest => if i = id then rest else (i, e) :: remove id rest

theorem get_of_not_mem {id : SeqNo} {c : List (SeqNo × β)} (h : id ∉ c.map Prod.fst) :
    get id c = none := by
  induction c with
  | nil => rfl
  | cons x rest ih =>
    simp only [List.map_cons, List.mem_cons, not_or] at h
    unfold get
    rw [if_neg (fun e => h.1 e.symm), ih h.2]

theorem get_set (id id' : SeqNo) (new : β) (c : List (SeqNo × β)) :
    get id' (set id new c) = if id' = id then some new else get id' c := by
  induction c with
  | nil =>
    by_cases h : id = id'
    · simp [set, get, h]
    · simp [set, get, h, Ne.symm h]
  | cons x rest ih =>
    obtain ⟨i, e⟩ := x
    unfold set
    by_cases hi : i = id
    · subst hi
      by_cases h : i = id'
      · simp [get, h]
      · simp [get, h, Ne.symm h]
    · rw [if_neg hi]
      by_cases h : i = id'
      · subst h
        simp [get, hi]
      · simp only [get, h, if_false, ih]

theorem mem_set {id i : SeqNo} {new : β} {c : List (SeqNo × β)} :
    i ∈ (set id new c).map Prod.fst ↔ i = id ∨ i ∈ c.map Prod.fst := by
  induction c with
  | nil => simp [set]
  | cons x rest ih =>
    unfold set
    split
    · next h => simp [h]
    · simp only [List.map_cons, List.mem_cons, ih]
      tauto

theorem set_nodup {id : SeqNo} {new : β} {c : List (SeqNo × β)} (h : (c.map Prod.fst).Nodup) :
    ((set id new c).map Prod.fst).Nodup := by
  induction c with
  | nil => simp [set]
  | cons x rest ih =>
    rw [List.map_cons, List.nodup_cons] at h
    unfold set
    split
    · next hx =>
      rw [List.map_cons, List.nodup_cons]
      exact ⟨hx ▸ h.1, h.2⟩
    · next hx =>
      rw [List.map_cons, List.nodup_cons, mem_set]
      exact ⟨not_or.mpr ⟨hx, h.1⟩, ih h.2⟩

theorem remove_sublist (id : SeqNo) (c : List (SeqNo × β)) : (remove id c).Sublist c := by
  induction c with
  | nil => exact .slnil
  | cons x rest ih =>
    unfold remove
    split
    · exact .cons _ (List.Sublist.refl _)
    · exact .cons_cons _ ih

theorem get_remove {id id' : SeqNo} {c : List (SeqNo × β)} (h : (c.map Prod.fst).Nodup) :
    get id' (remove id c) = if id' = id then none else get id' c := by
  induction c with
  | nil => simp [remove, get]
  | cons x rest ih =>
    obtain ⟨i, e⟩ := x
    rw [List.map_cons, List.nodup_cons] at h
    unfold remove
    by_cases hi : i = id
    · subst hi
      rw [if_pos rfl]
      by_cases h' : i = id'
      · subst h'
        rw [if_pos rfl, get_of_not_mem h.1]
      · simp [get, h', Ne.symm h']
    · rw [if_neg hi]
      by_cases h' : i = id'
      · subst h'
        simp [get, hi]
      · simp only [get, h', if_false, ih h.2]

end Chain

/-! ### The table -/

def STREAM_TABLE_SIZE : ℕ := 1024

/-- The chains of `udx->stream_table`. -/
structure StreamTable (β : Type) where
  chain : ℕ → List (SeqNo × β)
  nodup : ∀ i, ((chain i).map Prod.fst).Nodup

namespace StreamTable

variable {β : Type}

/-- The bucket of an id. -/
def bucket (id : SeqNo) : ℕ := id.toNat % STREAM_TABLE_SIZE

def empty : StreamTable β := ⟨fun _ => [], fun _ => List.nodup_nil⟩

/-- `udx_stream_entry_get`. -/
def get (t : StreamTable β) (id : SeqNo) : Option β := Chain.get id (t.chain (bucket id))

/-- Change the chain of an id. -/
def modify (t : StreamTable β) (id : SeqNo) (c : List (SeqNo × β)) (hc : (c.map Prod.fst).Nodup) :
    StreamTable β :=
  { chain := Function.update t.chain (bucket id) c
    nodup := fun i => by
      by_cases h : i = bucket id
      · rw [h, Function.update_self]
        exact hc
      · rw [Function.update_of_ne h]
        exact t.nodup i }

/-- `udx_stream_entry_set`. -/
def set (t : StreamTable β) (id : SeqNo) (new : β) : StreamTable β :=
  t.modify id (Chain.set id new (t.chain (bucket id))) (Chain.set_nodup (t.nodup _))

/-- `udx_stream_entry_remove`. -/
def remove (t : StreamTable β) (id : SeqNo) : StreamTable β :=
  t.modify id (Chain.remove id (t.chain (bucket id)))
    ((t.nodup (bucket id)).sublist ((Chain.remove_sublist id _).map Prod.fst))

@[simp] theorem get_empty (id : SeqNo) : (empty : StreamTable β).get id = none := rfl

theorem get_modify (t : StreamTable β) {id : SeqNo} {c : List (SeqNo × β)}
    (hc : (c.map Prod.fst).Nodup) (id' : SeqNo) :
    (t.modify id c hc).get id' = if bucket id' = bucket id then Chain.get id' c else t.get id' := by
  unfold get modify
  dsimp only
  split
  · next h => rw [h, Function.update_self]
  · next h => rw [Function.update_of_ne h]

/-- `udx_stream_entry_set` changes what its id is looked up to, and no more. -/
theorem get_set (t : StreamTable β) (id : SeqNo) (new : β) (id' : SeqNo) :
    (t.set id new).get id' = if id' = id then some new else t.get id' := by
  unfold set
  rw [get_modify, Chain.get_set]
  by_cases h : id' = id
  · simp [h]
  · rw [if_neg h, if_neg h]
    split
    · next hb => rw [get, hb]
    · rfl

/-- `udx_stream_entry_remove` removes what its id is looked up to, and no
more. -/
theorem get_remove (t : StreamTable β) (id id' : SeqNo) :
    (t.remove id).get id' = if id' = id then none else t.get id' := by
  unfold remove
  rw [get_modify, Chain.get_remove (t.nodup _)]
  by_cases h : id' = id
  · simp [h]
  · rw [if_neg h, if_neg h]
    split
    · next hb => rw [get, hb]
    · rfl

end StreamTable
