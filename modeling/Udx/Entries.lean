/-
# The chains of the stream table (udx_stream_table.c)

The table as the source has it: 1024 heads and the entries, which are linked
through `hash_next`. `lookup` returns the place that holds the pointer to the
entry of an id, and `udx_stream_entry_set` and `udx_stream_entry_remove` write
to that place. Every run of these calls is a run on a finite map.

Key definitions: `EntryHeap.lookup`, `EntryHeap.call`, `Linked`, `Represents`,
`EntryMap.call`.
Key theorems: `Linked.lookup`, `Represents.call`, `EntryHeap.run_map`.
-/
import Udx.StreamTable
import Mathlib.Data.List.Nodup

open Serial

/-! ### The source -/

/-- `udx_stream_entry_t`. -/
structure StreamEntry where
  localId : SeqNo
  hashNext : Option ℕ

/-- The table and the memory of the entries. -/
structure EntryHeap where
  streamTable : ℕ → Option ℕ
  entries : ℕ → StreamEntry

/-- A `udx_stream_entry_t **`: a head of the table, or the `hash_next` of an
entry. -/
inductive EntryRef
  | head (i : ℕ)
  | next (e : ℕ)

namespace EntryHeap

def load (m : EntryHeap) : EntryRef → Option ℕ
  | .head i => m.streamTable i
  | .next e => (m.entries e).hashNext

def store (m : EntryHeap) (p : EntryRef) (v : Option ℕ) : EntryHeap :=
  match p with
  | .head i => { m with streamTable := Function.update m.streamTable i v }
  | .next e => { m with entries := Function.update m.entries e { m.entries e with hashNext := v } }

/-- The loop of `lookup`, for at most `fuel` steps. -/
def lookupLoop (m : EntryHeap) (id : SeqNo) : ℕ → EntryRef → Option EntryRef
  | 0, _ => none
  | fuel + 1, p =>
    match m.load p with
    | none => some p
    | some e => if (m.entries e).localId = id then some p else lookupLoop m id fuel (.next e)

def lookup (m : EntryHeap) (fuel : ℕ) (id : SeqNo) : Option EntryRef :=
  m.lookupLoop id fuel (.head (StreamTable.bucket id))

/-- `udx_stream_entry_get`. -/
def udxStreamEntryGet (m : EntryHeap) (fuel : ℕ) (id : SeqNo) : Option (Option ℕ) := do
  let p ← m.lookup fuel id
  return m.load p

/-- `new->hash_next = v`. -/
def setNext (m : EntryHeap) (e : ℕ) (v : Option ℕ) : EntryHeap := m.store (.next e) v

/-- `udx_stream_entry_set`: the entry that was replaced, if there was one. -/
def udxStreamEntrySet (m : EntryHeap) (fuel new : ℕ) : Option (EntryHeap × Option ℕ) := do
  let p ← m.lookup fuel (m.entries new).localId
  match m.load p with
  | some old => return ((m.setNext new (m.entries old).hashNext).store p (some new), some old)
  | none => return ((m.store p (some new)).setNext new none, none)

/-- `udx_stream_entry_remove`. -/
def udxStreamEntryRemove (m : EntryHeap) (fuel : ℕ) (id : SeqNo) : Option (EntryHeap × Option ℕ) := do
  let p ← m.lookup fuel id
  match m.load p with
  | some e => return (m.store p (m.entries e).hashNext, some e)
  | none => return (m, none)

end EntryHeap

/-- The calls, and the start of an entry that is in no table: it gets an id. -/
inductive EntryCall
  | init (e : ℕ) (id : SeqNo)
  | set (e : ℕ)
  | get (id : SeqNo)
  | remove (id : SeqNo)

/-- One call, and the entry it returns. -/
def EntryHeap.call (m : EntryHeap) (fuel : ℕ) : EntryCall → Option (EntryHeap × Option ℕ)
  | .init e id => some ({ m with entries := Function.update m.entries e ⟨id, none⟩ }, none)
  | .set e => m.udxStreamEntrySet fuel e
  | .get id => (m.udxStreamEntryGet fuel id).map fun r => (m, r)
  | .remove id => m.udxStreamEntryRemove fuel id

/-- A run, and what its calls return. -/
def EntryHeap.run (fuel : ℕ) : List EntryCall → EntryHeap → Option (EntryHeap × List (Option ℕ))
  | [], m => some (m, [])
  | c :: cs, m => do
    let (m, r) ← m.call fuel c
    let (m, rs) ← run fuel cs m
    return (m, r :: rs)

/-! ### The map -/

/-- A finite map from ids to entries, and the id of each entry. -/
structure EntryMap where
  ids : ℕ → SeqNo
  map : SeqNo → Option ℕ

namespace EntryMap

/-- What a call does to the map, and what it returns. -/
def call (a : EntryMap) : EntryCall → EntryMap × Option ℕ
  | .init e id => ({ a with ids := Function.update a.ids e id }, none)
  | .set e => ({ a with map := Function.update a.map (a.ids e) (some e) }, a.map (a.ids e))
  | .get id => (a, a.map id)
  | .remove id => ({ a with map := Function.update a.map id none }, a.map id)

/-- An entry is started only while it is in no table. -/
def Allows (a : EntryMap) : EntryCall → Prop
  | .init e _ => ∀ id, a.map id ≠ some e
  | _ => True

def run : List EntryCall → EntryMap → EntryMap × List (Option ℕ)
  | [], a => (a, [])
  | c :: cs, a =>
    let r := run cs (a.call c).1
    (r.1, (a.call c).2 :: r.2)

/-- Every call of a run is allowed. -/
def AllowsAll (a : EntryMap) : List EntryCall → Prop
  | [] => True
  | c :: cs => a.Allows c ∧ (a.call c).1.AllowsAll cs

end EntryMap

/-! ### Chains -/

/-- The chain that `p` points to holds the entries `l`, and ends. -/
def Linked (m : EntryHeap) : Option ℕ → List ℕ → Prop
  | p, [] => p = none
  | p, e :: rest => p = some e ∧ Linked m (m.entries e).hashNext rest

/-- The place that holds the pointer behind the entries `l` of the chain at
`p`. -/
def EntryRef.behind : EntryRef → List ℕ → EntryRef
  | p, [] => p
  | _, e :: rest => EntryRef.behind (.next e) rest

namespace EntryHeap

variable {m : EntryHeap} {p q : EntryRef} {v : Option ℕ}

theorem load_store_self : (m.store p v).load p = v := by
  cases p <;> simp [store, load]

theorem load_store_of_ne (h : q ≠ p) : (m.store p v).load q = m.load q := by
  cases p with
  | head i =>
    cases q with
    | head j =>
      have hne : j ≠ i := fun hj => h (congrArg EntryRef.head hj)
      exact Function.update_of_ne hne ..
    | next e => rfl
  | next d =>
    cases q with
    | head j => rfl
    | next e =>
      have hne : e ≠ d := fun he => h (congrArg EntryRef.next he)
      simp [store, load, hne]

@[simp] theorem localId_store (e : ℕ) : ((m.store p v).entries e).localId = (m.entries e).localId := by
  cases p with
  | head i => rfl
  | next d =>
    by_cases h : e = d
    · simp [store, h]
    · simp [store, h]

end EntryHeap

namespace Linked

variable {m m' : EntryHeap} {p : EntryRef} {v : Option ℕ} {l l₁ l₂ : List ℕ}

/-- A chain does not depend on the entries that are not in it. -/
theorem congr (h : Linked m v l) (hsame : ∀ e ∈ l, m'.load (.next e) = m.load (.next e)) : Linked m' v l := by
  induction l generalizing v with
  | nil => exact h
  | cons e rest ih =>
    refine ⟨h.1, ?_⟩
    have hnext : (m'.entries e).hashNext = (m.entries e).hashNext := hsame e List.mem_cons_self
    rw [hnext]
    exact ih h.2 fun d hd => hsame d (List.mem_cons_of_mem _ hd)

/-- The chain behind its first entries. -/
theorem behind (h : Linked m (m.load p) (l₁ ++ l₂)) : Linked m (m.load (p.behind l₁)) l₂ := by
  induction l₁ generalizing p with
  | nil => exact h
  | cons e rest ih => exact ih (p := .next e) h.2

theorem behind_mem (p : EntryRef) (l : List ℕ) : p.behind l = p ∨ ∃ e ∈ l, p.behind l = .next e := by
  induction l generalizing p with
  | nil => exact .inl rfl
  | cons e rest ih =>
    rcases ih (.next e) with h | ⟨d, hd, h⟩
    · exact .inr ⟨e, List.mem_cons_self, h⟩
    · exact .inr ⟨d, List.mem_cons_of_mem _ hd, h⟩

/-- Another chain behind the first entries, whose places stay. -/
theorem splice (h : Linked m (m.load p) (l₁ ++ l)) (hnodup : l₁.Nodup) (hp : ∀ e ∈ l₁, p ≠ .next e)
    (hsame : ∀ q, q = p ∨ (∃ e ∈ l₁, q = .next e) → q ≠ p.behind l₁ → m'.load q = m.load q)
    (htail : Linked m' (m'.load (p.behind l₁)) l₂) : Linked m' (m'.load p) (l₁ ++ l₂) := by
  induction l₁ generalizing p with
  | nil => exact htail
  | cons e rest ih =>
    obtain ⟨hfresh, hrest⟩ := List.nodup_cons.mp hnodup
    have hfar : p ≠ EntryRef.behind (.next e) rest := by
      intro heq
      rcases behind_mem (.next e) rest with hb | ⟨d, hd, hb⟩
      · exact hp e List.mem_cons_self (heq.trans hb)
      · exact hp d (List.mem_cons_of_mem _ hd) (heq.trans hb)
    refine ⟨(hsame p (.inl rfl) hfar).trans h.1, ih (p := .next e) h.2 hrest (fun d hd heq => ?_) (fun q hq hne => ?_) htail⟩
    · exact hfresh (EntryRef.next.inj heq ▸ hd)
    · refine hsame q (.inr ?_) hne
      rcases hq with rfl | ⟨d, hd, rfl⟩
      · exact ⟨e, List.mem_cons_self, rfl⟩
      · exact ⟨d, List.mem_cons_of_mem _ hd, rfl⟩

/-- The loop stops behind the entries that have another id. -/
theorem lookup (h : Linked m (m.load p) l) (id : SeqNo) {fuel : ℕ} (hfuel : l.length < fuel) :
    ∃ l₁ l₂, l = l₁ ++ l₂ ∧ m.lookupLoop id fuel p = some (p.behind l₁) ∧
      (∀ e ∈ l₁, (m.entries e).localId ≠ id) ∧
      (l₂ = [] ∧ m.load (p.behind l₁) = none ∨ ∃ e rest, l₂ = e :: rest ∧
        m.load (p.behind l₁) = some e ∧ (m.entries e).localId = id) := by
  induction l generalizing p fuel with
  | nil =>
    obtain ⟨n, rfl⟩ := Nat.exists_eq_succ_of_ne_zero (Nat.ne_of_gt hfuel)
    have hnone : m.load p = none := h
    refine ⟨[], [], rfl, ?_, by simp, .inl ⟨rfl, hnone⟩⟩
    simp [EntryHeap.lookupLoop, hnone, EntryRef.behind]
  | cons e rest ih =>
    obtain ⟨n, rfl⟩ := Nat.exists_eq_succ_of_ne_zero (Nat.ne_of_gt (Nat.zero_lt_of_lt hfuel))
    have hload : m.load p = some e := h.1
    by_cases hid : (m.entries e).localId = id
    · refine ⟨[], e :: rest, rfl, ?_, by simp, .inr ⟨e, rest, rfl, hload, hid⟩⟩
      simp [EntryHeap.lookupLoop, hload, hid, EntryRef.behind]
    · rw [List.length_cons, Nat.succ_lt_succ_iff] at hfuel
      obtain ⟨l₁, l₂, hl, hloop, hother, hend⟩ := ih (p := .next e) h.2 hfuel
      refine ⟨e :: l₁, l₂, by rw [hl, List.cons_append], ?_, ?_, hend⟩
      · simpa [EntryHeap.lookupLoop, hload, hid, EntryRef.behind] using hloop
      · simpa [hid] using hother

end Linked

/-! ### The table is a map -/

/-- The entries of bucket `i` that the map holds. -/
def EntryMap.Holds (a : EntryMap) (i e : ℕ) : Prop := a.map (a.ids e) = some e ∧ StreamTable.bucket (a.ids e) = i

/-- The table stands for the map: the chain of each bucket ends, has each id
once, and holds just the entries of the map with an id of the bucket. -/
structure Represents (n : ℕ) (m : EntryHeap) (a : EntryMap) : Prop where
  ids : ∀ e, (m.entries e).localId = a.ids e
  owns : ∀ id e, a.map id = some e → a.ids e = id
  chains : ∀ i < STREAM_TABLE_SIZE, ∃ l, Linked m (m.streamTable i) l ∧ (l.map a.ids).Nodup ∧ l.length ≤ n ∧
    ∀ e, e ∈ l ↔ a.Holds i e

/-- What `lookup` finds in the bucket of `id`: the place `q` behind the entries
`l₁` before the one of `id`, or behind the whole chain. -/
structure Finds (n : ℕ) (m : EntryHeap) (a : EntryMap) (id : SeqNo) (q : EntryRef) (l₁ l₂ : List ℕ) : Prop where
  place : q = (EntryRef.head (StreamTable.bucket id)).behind l₁
  linked : Linked m (m.streamTable (StreamTable.bucket id)) (l₁ ++ l₂)
  nodup : ((l₁ ++ l₂).map a.ids).Nodup
  length : (l₁ ++ l₂).length ≤ n
  holds : ∀ e, e ∈ l₁ ++ l₂ ↔ a.Holds (StreamTable.bucket id) e
  load : m.load q = a.map id
  others : ∀ e ∈ l₁, a.ids e ≠ id
  found : l₂ = [] ∧ a.map id = none ∨ ∃ e rest, l₂ = e :: rest ∧ a.map id = some e ∧ a.ids e = id

theorem bucket_lt (id : SeqNo) : StreamTable.bucket id < STREAM_TABLE_SIZE := Nat.mod_lt _ (by decide)

namespace Represents

variable {n : ℕ} {m m' : EntryHeap} {a : EntryMap} {id : SeqNo} {q : EntryRef} {l₁ l₂ : List ℕ}

theorem lookup (h : Represents n m a) (id : SeqNo) {fuel : ℕ} (hfuel : n < fuel) :
    ∃ q l₁ l₂, m.lookup fuel id = some q ∧ Finds n m a id q l₁ l₂ := by
  obtain ⟨l, hlinked, hnodup, hlen, hmem⟩ := h.chains _ (bucket_lt id)
  obtain ⟨l₁, l₂, rfl, hloop, hother, hend⟩ :=
    Linked.lookup (p := .head (StreamTable.bucket id)) hlinked id (Nat.lt_of_le_of_lt hlen hfuel)
  have hother' : ∀ e ∈ l₁, a.ids e ≠ id := fun e he => by
    rw [← h.ids e]
    exact hother e he
  refine ⟨_, l₁, l₂, hloop, ?_⟩
  rcases hend with ⟨rfl, hnone⟩ | ⟨e, rest, rfl, hsome, hid⟩
  · have hmap : a.map id = none := by
      rw [Option.eq_none_iff_forall_not_mem]
      intro e he
      have hids := h.owns id e he
      have hin : e ∈ l₁ ++ [] := (hmem e).mpr ⟨by rw [hids]; exact he, by rw [hids]⟩
      rw [List.append_nil] at hin
      exact hother' e hin hids
    exact ⟨rfl, hlinked, hnodup, hlen, hmem, hnone.trans hmap.symm, hother', .inl ⟨rfl, hmap⟩⟩
  · rw [h.ids e] at hid
    have hheld : a.Holds (StreamTable.bucket id) e :=
      (hmem e).mp (List.mem_append_right _ List.mem_cons_self)
    have hmap : a.map id = some e := by
      rw [← hid]
      exact hheld.1
    exact ⟨rfl, hlinked, hnodup, hlen, hmem, hsome.trans hmap.symm, hother', .inr ⟨e, rest, rfl, hmap, hid⟩⟩

end Represents

namespace Finds

variable {n : ℕ} {m m' : EntryHeap} {a : EntryMap} {id : SeqNo} {q : EntryRef} {l₁ l₂ : List ℕ}

/-- Behind the entry of `id` there is no other one of `id`. -/
theorem rest (h : Finds n m a id q l₁ l₂) : ∀ e ∈ l₂.tail, a.ids e ≠ id := by
  rcases h.found with ⟨rfl, -⟩ | ⟨d, rest, rfl, -, hid⟩
  · simp
  · intro e he heq
    have hnodup := (List.nodup_append.mp (List.map_append ▸ h.nodup)).2.1
    rw [List.map_cons, List.nodup_cons] at hnodup
    exact hnodup.1 (List.mem_map.mpr ⟨e, he, heq.trans hid.symm⟩)

/-- The place is not the `hash_next` of an entry that is not before it. -/
theorem place_ne (h : Finds n m a id q l₁ l₂) {e : ℕ} (he : e ∉ l₁) : q ≠ .next e := by
  rw [h.place]
  rcases Linked.behind_mem (.head (StreamTable.bucket id)) l₁ with hb | ⟨d, hd, hb⟩
  · simp [hb]
  · rw [hb]
    exact fun hde => he (EntryRef.next.inj hde ▸ hd)

/-- The entries behind the one of `id` stay linked. -/
theorem tail_linked (h : Finds n m a id q l₁ l₂) {old : ℕ} {rest : List ℕ} (hl : l₂ = old :: rest) {x : ℕ}
    (hx : a.ids x = id) (hsame : ∀ p, p ≠ q → p ≠ .next x → m'.load p = m.load p) :
    Linked m' (m.entries old).hashNext rest := by
  have hlinked : Linked m (m.load q) (old :: rest) := by
    rw [h.place, ← hl]
    exact Linked.behind (p := .head (StreamTable.bucket id)) h.linked
  have hnodup := List.nodup_append.mp (List.Nodup.of_map a.ids h.nodup)
  refine hlinked.2.congr fun e he => hsame _ (fun heq => ?_) fun heq => ?_
  · have hmem : e ∈ l₂ := hl ▸ List.mem_cons_of_mem _ he
    exact h.place_ne (fun hin => hnodup.2.2 e hin e hmem rfl) heq.symm
  · rw [EntryRef.next.inj heq] at he
    exact h.rest x (by simpa [hl] using he) hx

/-- The entries of the chain but the one of `id`. -/
theorem mem_others (h : Finds n m a id q l₁ l₂) {e : ℕ} (he : a.ids e ≠ id) :
    e ∈ l₁ ++ l₂.tail ↔ e ∈ l₁ ++ l₂ := by
  rcases h.found with ⟨rfl, -⟩ | ⟨d, rest, rfl, -, hid⟩
  · rfl
  · have hne : e ≠ d := fun hed => he (hed ▸ hid)
    simp [hne]

/-- The chain of `id` with `u` in the place of its entry. -/
theorem holds_update (h : Finds n m a id q l₁ l₂) {x : ℕ} (hx : a.ids x = id) {u : Option ℕ}
    (hu : u = some x ∨ u = none) (e : ℕ) : e ∈ l₁ ++ (u.toList ++ l₂.tail) ↔
      ({ a with map := Function.update a.map id u } : EntryMap).Holds (StreamTable.bucket id) e := by
  by_cases he : a.ids e = id
  · have hnot₁ : e ∉ l₁ := fun hin => h.others e hin he
    have hnot₂ : e ∉ l₂.tail := fun hin => h.rest e hin he
    rcases hu with rfl | rfl
    · simp [EntryMap.Holds, he, hnot₁, hnot₂, eq_comm]
    · simp [EntryMap.Holds, he, hnot₁, hnot₂]
  · have hne : u = some x → e ≠ x := fun _ hex => he (hex ▸ hx)
    have hmem : e ∈ l₁ ++ (u.toList ++ l₂.tail) ↔ e ∈ l₁ ++ l₂.tail := by
      rcases hu with rfl | rfl
      · simp [hne rfl]
      · simp
    rw [hmem, h.mem_others he, h.holds]
    simp [EntryMap.Holds, he]

theorem nodup_update (h : Finds n m a id q l₁ l₂) {x : ℕ} (hx : a.ids x = id) {u : Option ℕ}
    (hu : u = some x ∨ u = none) : ((l₁ ++ (u.toList ++ l₂.tail)).map a.ids).Nodup := by
  have hsub : ((l₁ ++ l₂.tail).map a.ids).Nodup :=
    h.nodup.sublist (((List.Sublist.refl l₁).append (List.tail_sublist l₂)).map a.ids)
  rcases hu with rfl | rfl
  · have hperm : (l₁ ++ ([x] ++ l₂.tail)).Perm (x :: (l₁ ++ l₂.tail)) := List.perm_middle
    show ((l₁ ++ ([x] ++ l₂.tail)).map a.ids).Nodup
    rw [(hperm.map a.ids).nodup_iff, List.map_cons, List.nodup_cons]
    refine ⟨fun hin => ?_, hsub⟩
    obtain ⟨e, he, heq⟩ := List.mem_map.mp hin
    rcases List.mem_append.mp he with he | he
    · exact h.others e he (heq.trans hx)
    · exact h.rest e he (heq.trans hx)
  · exact hsub

/-- The table after a write to the place of `id`. -/
theorem represents (h : Finds n m a id q l₁ l₂) (hm : Represents n m a) {x : ℕ} (hx : a.ids x = id)
    {u : Option ℕ} (hu : u = some x ∨ u = none) (hids : ∀ e, (m'.entries e).localId = (m.entries e).localId)
    (hsame : ∀ p, p ≠ q → p ≠ .next x → m'.load p = m.load p)
    (htail : Linked m' (m'.load q) (u.toList ++ l₂.tail)) :
    Represents (n + 1) m' { a with map := Function.update a.map id u } := by
  refine ⟨fun e => (hids e).trans (hm.ids e), fun id' e he => ?_, fun i hi => ?_⟩
  · dsimp only at he
    by_cases hid : id' = id
    · rw [hid, Function.update_self] at he
      rcases hu with rfl | rfl
      · obtain rfl := Option.some.inj he
        exact hx.trans hid.symm
      · cases he
    · rw [Function.update_of_ne hid] at he
      exact hm.owns id' e he
  · by_cases hbucket : i = StreamTable.bucket id
    · subst hbucket
      refine ⟨l₁ ++ (u.toList ++ l₂.tail), ?_, h.nodup_update hx hu, ?_, h.holds_update hx hu⟩
      · have hnodup : l₁.Nodup := (List.nodup_append.mp (List.Nodup.of_map a.ids h.nodup)).1
        refine Linked.splice (p := .head (StreamTable.bucket id)) h.linked hnodup (by simp) (fun p hp hne => ?_)
          (h.place ▸ htail)
        rw [← h.place] at hne
        refine hsame p hne ?_
        rcases hp with rfl | ⟨e, he, rfl⟩
        · simp
        · intro hex
          rw [EntryRef.next.inj hex] at he
          exact h.others x he hx
      · have hlen := h.length
        have hu' : u.toList.length ≤ 1 := by
          rcases hu with rfl | rfl <;> simp
        simp only [List.length_append, List.length_tail] at hlen ⊢
        omega
    · obtain ⟨l, hlinked, hnodup, hlen, hmem⟩ := hm.chains i hi
      have hfar : ∀ e ∈ l, e ≠ x ∧ e ∉ l₁ := by
        intro e he
        have hbe := ((hmem e).mp he).2
        refine ⟨fun hex => ?_, fun hin => ?_⟩
        · rw [hex, hx] at hbe
          exact hbucket hbe.symm
        · exact hbucket (hbe.symm.trans ((h.holds e).mp (List.mem_append_left _ hin)).2)
      refine ⟨l, ?_, hnodup, Nat.le_succ_of_le hlen, fun e => (hmem e).trans ?_⟩
      · have hq : ∀ e ∈ l, EntryRef.next e ≠ q := by
          intro e he heq
          rcases Linked.behind_mem (.head (StreamTable.bucket id)) l₁ with hb | ⟨d, hd, hb⟩
          · cases heq.trans (h.place.trans hb)
          · rw [EntryRef.next.inj (heq.trans (h.place.trans hb))] at he
            exact (hfar d he).2 hd
        have hhead : m'.streamTable i = m.streamTable i := by
          refine hsame (.head i) (fun heq => ?_) (by simp)
          rcases Linked.behind_mem (.head (StreamTable.bucket id)) l₁ with hb | ⟨d, hd, hb⟩
          · exact hbucket (EntryRef.head.inj (heq.trans (h.place.trans hb)))
          · cases heq.trans (h.place.trans hb)
        rw [hhead]
        refine hlinked.congr fun e he => hsame _ (hq e he) fun hex => ?_
        exact (hfar e he).1 (EntryRef.next.inj hex)
      · constructor
        · rintro ⟨hmap, hb⟩
          have hne : a.ids e ≠ id := fun heq => hbucket (heq ▸ hb).symm
          exact ⟨by simpa [hne] using hmap, hb⟩
        · rintro ⟨hmap, hb⟩
          have hne : a.ids e ≠ id := fun heq => hbucket (heq ▸ hb).symm
          exact ⟨by simpa [hne] using hmap, hb⟩

end Finds

namespace Represents

variable {n : ℕ} {m : EntryHeap} {a : EntryMap} {fuel : ℕ}

theorem later (h : Represents n m a) : Represents (n + 1) m a := by
  refine ⟨h.ids, h.owns, fun i hi => ?_⟩
  obtain ⟨l, hlinked, hnodup, hlen, hmem⟩ := h.chains i hi
  exact ⟨l, hlinked, hnodup, Nat.le_succ_of_le hlen, hmem⟩

/-- An entry that is in no chain gets an id. -/
theorem init (h : Represents n m a) {e : ℕ} (he : ∀ id, a.map id ≠ some e) (id : SeqNo) :
    Represents n { m with entries := Function.update m.entries e ⟨id, none⟩ }
      { a with ids := Function.update a.ids e id } := by
  have hids : ∀ d, d ≠ e → Function.update a.ids e id d = a.ids d := fun d hd => Function.update_of_ne hd ..
  refine ⟨fun d => ?_, fun id' d hd => ?_, fun i hi => ?_⟩
  · by_cases hd : d = e
    · simp [hd]
    · simpa [hd] using h.ids d
  · have hne : d ≠ e := fun hde => he id' (hde ▸ hd)
    exact (hids d hne).trans (h.owns id' d hd)
  · obtain ⟨l, hlinked, hnodup, hlen, hmem⟩ := h.chains i hi
    have hnot : ∀ d ∈ l, d ≠ e := fun d hd hde => he _ (hde ▸ ((hmem d).mp hd).1)
    refine ⟨l, hlinked.congr fun d hd => ?_, ?_, hlen, fun d => ?_⟩
    · simp [EntryHeap.load, hnot d hd]
    · have hmap : l.map (Function.update a.ids e id) = l.map a.ids :=
        List.map_congr_left fun d hd => hids d (hnot d hd)
      rw [hmap]
      exact hnodup
    · by_cases hd : d = e
      · have hgone : d ∉ l := fun hin => hnot d hin hd
        simp [EntryMap.Holds, hd, he, hd ▸ hgone]
      · rw [hmem]
        simp [EntryMap.Holds, hids d hd]

theorem set (h : Represents n m a) (new : ℕ) (hfuel : n < fuel) :
    ∃ m', m.udxStreamEntrySet fuel new = some (m', a.map (a.ids new)) ∧
      Represents (n + 1) m' { a with map := Function.update a.map (a.ids new) (some new) } := by
  obtain ⟨q, l₁, l₂, hlookup, hfinds⟩ := h.lookup (a.ids new) hfuel
  unfold EntryHeap.udxStreamEntrySet
  rw [h.ids new, hlookup]
  dsimp only [Option.bind_eq_bind, Option.bind_some]
  have hnew : q ≠ .next new := hfinds.place_ne fun hin => hfinds.others new hin rfl
  rcases hfinds.found with ⟨rfl, hnone⟩ | ⟨old, rest, rfl, hsome, hold⟩
  · -- the chain ends at `q`
    rw [hfinds.load, hnone]
    refine ⟨_, rfl, hfinds.represents h rfl (.inl rfl) (by simp [EntryHeap.setNext]) (fun p hp hx => ?_) ?_⟩
    · rw [EntryHeap.setNext, EntryHeap.load_store_of_ne hx, EntryHeap.load_store_of_ne hp]
    · rw [EntryHeap.setNext, EntryHeap.load_store_of_ne hnew, EntryHeap.load_store_self]
      exact ⟨rfl, EntryHeap.load_store_self (p := .next new)⟩
  · -- `old` is replaced in place
    rw [hfinds.load, hsome]
    have hsame : ∀ p, p ≠ q → p ≠ .next new →
        ((m.setNext new (m.entries old).hashNext).store q (some new)).load p = m.load p := fun p hp hx => by
      rw [EntryHeap.load_store_of_ne hp, EntryHeap.setNext, EntryHeap.load_store_of_ne hx]
    refine ⟨_, rfl, hfinds.represents h rfl (.inl rfl) (by simp [EntryHeap.setNext]) hsame ?_⟩
    rw [EntryHeap.load_store_self]
    have hnext : ((m.setNext new (m.entries old).hashNext).store q (some new)).load (.next new) =
        (m.entries old).hashNext := by
      rw [EntryHeap.load_store_of_ne hnew.symm, EntryHeap.setNext, EntryHeap.load_store_self]
    refine ⟨rfl, ?_⟩
    rw [show (EntryHeap.entries _ new).hashNext = _ from hnext]
    exact hfinds.tail_linked rfl rfl hsame

theorem get (h : Represents n m a) (id : SeqNo) (hfuel : n < fuel) :
    m.udxStreamEntryGet fuel id = some (a.map id) := by
  obtain ⟨q, l₁, l₂, hlookup, hfinds⟩ := h.lookup id hfuel
  simp [EntryHeap.udxStreamEntryGet, hlookup, hfinds.load]

theorem remove (h : Represents n m a) (id : SeqNo) (hfuel : n < fuel) :
    ∃ m', m.udxStreamEntryRemove fuel id = some (m', a.map id) ∧
      Represents (n + 1) m' { a with map := Function.update a.map id none } := by
  obtain ⟨q, l₁, l₂, hlookup, hfinds⟩ := h.lookup id hfuel
  unfold EntryHeap.udxStreamEntryRemove
  rw [hlookup]
  dsimp only [Option.bind_eq_bind, Option.bind_some]
  rcases hfinds.found with ⟨rfl, hnone⟩ | ⟨old, rest, rfl, hsome, hold⟩
  · have hupdate : Function.update a.map id none = a.map := by
      rw [← hnone, Function.update_eq_self]
    rw [hfinds.load, hnone, hupdate]
    exact ⟨_, rfl, h.later⟩
  · rw [hfinds.load, hsome]
    have hsame : ∀ p, p ≠ q → p ≠ .next old → (m.store q (m.entries old).hashNext).load p = m.load p :=
      fun p hp _ => EntryHeap.load_store_of_ne hp
    refine ⟨_, rfl, hfinds.represents h hold (.inr rfl) (by simp) hsame ?_⟩
    rw [EntryHeap.load_store_self]
    exact hfinds.tail_linked rfl hold hsame

/-- A call on the table is one on the map. -/
theorem call (h : Represents n m a) {c : EntryCall} (hc : a.Allows c) (hfuel : n < fuel) :
    ∃ m', m.call fuel c = some (m', (a.call c).2) ∧ Represents (n + 1) m' (a.call c).1 := by
  cases c with
  | init e id => exact ⟨_, rfl, (h.init hc id).later⟩
  | set e => exact h.set e hfuel
  | get id => exact ⟨m, by simp [EntryHeap.call, EntryMap.call, h.get id hfuel], h.later⟩
  | remove id => exact h.remove id hfuel

/-- A run on the table is one on the map, for enough fuel. -/
theorem run (h : Represents n m a) {cs : List EntryCall} (hcs : a.AllowsAll cs) (hfuel : n + cs.length ≤ fuel) :
    ∃ m', m.run fuel cs = some (m', (a.run cs).2) ∧ Represents (n + cs.length) m' (a.run cs).1 := by
  induction cs generalizing n m a with
  | nil => exact ⟨m, rfl, h⟩
  | cons c cs ih =>
    rw [List.length_cons] at hfuel
    have hlt : n < fuel := by omega
    obtain ⟨m₁, hcall, h₁⟩ := h.call hcs.1 hlt
    obtain ⟨m₂, hrun, h₂⟩ := ih h₁ hcs.2 (by omega)
    refine ⟨m₂, ?_, ?_⟩
    · simp [EntryHeap.run, hcall, hrun, EntryMap.run]
    · rw [List.length_cons, show n + (cs.length + 1) = n + 1 + cs.length by omega]
      exact h₂

end Represents

namespace EntryHeap

/-- The map that an empty table stands for. -/
def emptied (m : EntryHeap) : EntryMap := ⟨fun e => (m.entries e).localId, fun _ => none⟩

/-- Every run of calls on an empty table, from whatever is in memory: it
returns what the map returns, and the table stands for the map. -/
theorem run_map (m : EntryHeap) (hempty : ∀ i < STREAM_TABLE_SIZE, m.streamTable i = none) (cs : List EntryCall)
    (hcs : m.emptied.AllowsAll cs) {fuel : ℕ} (hfuel : cs.length ≤ fuel) :
    ∃ m', m.run fuel cs = some (m', (m.emptied.run cs).2) ∧ Represents cs.length m' (m.emptied.run cs).1 := by
  have h : Represents 0 m m.emptied := by
    refine ⟨fun _ => rfl, nofun, fun i hi => ⟨[], hempty i hi, List.nodup_nil, Nat.le_refl 0, ?_⟩⟩
    simp [EntryMap.Holds, emptied]
  have hrun := h.run hcs (by omega : 0 + cs.length ≤ fuel)
  rwa [Nat.zero_add] at hrun

/-- Three ids of one chain; an entry is replaced in the middle of it, and set
again under another id. -/
theorem run_map_chain :
    let m : EntryHeap := ⟨fun _ => none, fun e => ⟨1 + 1024 * BitVec.ofNat 32 e, none⟩⟩
    let cs : List EntryCall := [.set 0, .set 1, .set 2, .init 3 1025, .set 3, .init 1 1, .set 1, .remove 1025, .get 2049]
    (m.emptied.run cs).2 = [none, none, none, none, some 1, none, some 0, some 3, some 2] ∧
      ∃ m', m.run 9 cs = some (m', (m.emptied.run cs).2) ∧ Represents 9 m' (m.emptied.run cs).1 := by
  refine ⟨by decide +kernel, run_map _ (by simp) _ ?_ (by decide)⟩
  simp only [EntryMap.AllowsAll, EntryMap.Allows, EntryMap.call, EntryHeap.emptied, Function.update_apply, and_true,
    true_and]
  constructor
  · intro id
    split_ifs <;> simp
  · intro id
    split_ifs <;> simp_all

end EntryHeap
