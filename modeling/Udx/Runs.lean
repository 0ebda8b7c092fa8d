/-
# Maximal runs of a partial sequence

A finite partial map from positions to items, kept as the list of its maximal
runs in order: neighbouring runs are at least one position apart, and no run
is empty. `insert` puts an item at a free position, joining the runs it
closes the gap between. `get` reads the map back: `insert` updates it at a
free position and nowhere else, and keeps the runs maximal.

Key definitions: `Run`, `Runs.Ordered`, `Runs.get`, `Runs.insert`.
Key theorems: `Runs.get_insert_self`, `Runs.get_insert_of_ne`,
`Runs.insert_ordered`, `Runs.get_head`.
-/
import Mathlib.Data.Nat.Notation
import Mathlib.Tactic.SplitIfs

/-- The items at the positions from `start` on. -/
structure Run (α : Type) where
  start : ℕ
  items : List α

namespace Run

variable {α : Type}

/-- The position after the last. -/
def stop (r : Run α) : ℕ := r.start + r.items.length

end Run

namespace Runs

variable {α : Type}

/-- Non-empty runs at or above `lo`, each at least one position after the one
before it. -/
def Ordered : ℕ → List (Run α) → Prop
  | _, [] => True
  | lo, r :: rs => lo ≤ r.start ∧ r.items ≠ [] ∧ Ordered (r.stop + 1) rs

/-- The item at a position. -/
def get : List (Run α) → ℕ → Option α
  | [], _ => none
  | r :: rs, i =>
    if i < r.start then none
    else if i < r.stop then r.items[i - r.start]?
    else get rs i

/-- `r` goes before the runs, and takes the first if they touch. -/
def join (r : Run α) : List (Run α) → List (Run α)
  | [] => [r]
  | n :: ns => if n.start = r.stop then ⟨r.start, r.items ++ n.items⟩ :: ns else r :: n :: ns

/-- Put an item at a position, if that is free. -/
def insert (i : ℕ) (a : α) : List (Run α) → List (Run α)
  | [] => [⟨i, [a]⟩]
  | r :: rs =>
    if i < r.start then join ⟨i, [a]⟩ (r :: rs)
    else if i < r.stop then r :: rs
    else if i = r.stop then join ⟨r.start, r.items ++ [a]⟩ rs
    else r :: insert i a rs

theorem Ordered.mono {lo lo' : ℕ} {rs : List (Run α)} (h : Ordered lo rs) (hle : lo' ≤ lo) :
    Ordered lo' rs := by
  cases rs with
  | nil => trivial
  | cons r rs => exact ⟨Nat.le_trans hle h.1, h.2.1, h.2.2⟩

theorem Ordered.start_lt_stop {lo : ℕ} {r : Run α} {rs : List (Run α)} (h : Ordered lo (r :: rs)) :
    r.start < r.stop := by
  have := List.length_pos_iff.mpr h.2.1
  unfold Run.stop
  omega

/-- All runs lie at or above the bound. -/
theorem Ordered.le_start {lo : ℕ} {rs : List (Run α)} (h : Ordered lo rs) {r : Run α} (hr : r ∈ rs) :
    lo ≤ r.start := by
  induction rs generalizing lo with
  | nil => cases hr
  | cons r' rs ih =>
    rcases List.mem_cons.mp hr with rfl | hr
    · exact h.1
    · have h1 := h.start_lt_stop
      have h2 := ih h.2.2 hr
      have h3 := h.1
      omega

/-- No run is empty. -/
theorem Ordered.lt_stop {lo : ℕ} {rs : List (Run α)} (h : Ordered lo rs) {r : Run α} (hr : r ∈ rs) :
    r.start < r.stop := by
  induction rs generalizing lo with
  | nil => cases hr
  | cons x rs ih =>
    rcases List.mem_cons.mp hr with rfl | hr
    · exact h.start_lt_stop
    · exact ih h.2.2 hr

theorem get_lt {lo : ℕ} {rs : List (Run α)} (h : Ordered lo rs) {i : ℕ} (hi : i < lo) :
    get rs i = none := by
  cases rs with
  | nil => rfl
  | cons r rs =>
    have := h.1
    rw [get, if_pos (by omega)]

/-- The items of the first run are at its positions. -/
theorem get_head {r : Run α} {rs : List (Run α)} {k : ℕ} (hk : k < r.items.length) :
    get (r :: rs) (r.start + k) = r.items[k]? := by
  rw [get, if_neg (by omega), if_pos (by unfold Run.stop; omega), Nat.add_sub_cancel_left]

/-- Past the first run the map is that of the others. -/
theorem get_tail {r : Run α} {rs : List (Run α)} {i : ℕ} (hi : r.stop ≤ i) :
    get (r :: rs) i = get rs i := by
  have : r.start ≤ r.stop := Nat.le_add_right _ _
  rw [get, if_neg (by omega), if_neg (by omega)]

/-- A run has an item at each of its positions. -/
theorem get_isSome {lo i : ℕ} {r : Run α} {rs : List (Run α)} (h : Ordered lo rs) (hr : r ∈ rs)
    (hlo : r.start ≤ i) (hhi : i < r.stop) : (get rs i).isSome = true := by
  induction rs generalizing lo with
  | nil => cases hr
  | cons x rs ih =>
    rcases List.mem_cons.mp hr with rfl | hr
    · obtain ⟨k, rfl⟩ := Nat.exists_eq_add_of_le hlo
      have hk : k < r.items.length := by
        unfold Run.stop at hhi
        omega
      rw [get_head hk, List.getElem?_eq_getElem hk]
      rfl
    · have hle := h.2.2.le_start hr
      rw [get_tail (by omega)]
      exact ih h.2.2 hr

theorem get_append_items (s : ℕ) (l l' : List α) (rs : List (Run α)) (i : ℕ) :
    get (⟨s, l ++ l'⟩ :: rs) i =
      if i < s then none else if i < s + l.length then l[i - s]? else
        get (⟨s + l.length, l'⟩ :: rs) i := by
  simp only [get, Run.stop, List.length_append]
  by_cases h1 : i < s
  · simp only [h1, if_true]
  · by_cases h2 : i < s + l.length
    · rw [if_neg h1, if_pos (by omega), if_neg h1, if_pos h2, List.getElem?_append_left (by omega)]
    · rw [if_neg h1, if_neg h1, if_neg h2, if_neg h2, List.getElem?_append_right (by omega),
        ← Nat.add_assoc, Nat.sub_sub]
      rfl

theorem get_join (r : Run α) (rs : List (Run α)) (i : ℕ) : get (join r rs) i = get (r :: rs) i := by
  cases rs with
  | nil => rfl
  | cons n ns =>
    obtain ⟨s, items⟩ := n
    simp only [join]
    split_ifs with h
    · subst h
      exact get_append_items r.start r.items items ns i
    · rfl

theorem join_ordered {lo : ℕ} {r : Run α} {rs : List (Run α)} (hlo : lo ≤ r.start)
    (hr : r.items ≠ []) (h : Ordered r.stop rs) : Ordered lo (join r rs) := by
  cases rs with
  | nil => exact ⟨hlo, hr, trivial⟩
  | cons n ns =>
    simp only [join]
    split_ifs with hn
    · refine ⟨hlo, by simp [hr], ?_⟩
      have e : (⟨r.start, r.items ++ n.items⟩ : Run α).stop = n.stop := by
        simp only [Run.stop, List.length_append] at hn ⊢
        omega
      rw [e]
      exact h.2.2
    · exact ⟨hlo, hr, by have := h.1; omega, h.2⟩

theorem insert_ordered {lo : ℕ} {rs : List (Run α)} {i : ℕ} (a : α) (hi : lo ≤ i)
    (h : Ordered lo rs) : Ordered lo (insert i a rs) := by
  induction rs generalizing lo with
  | nil => exact ⟨hi, by simp, trivial⟩
  | cons r rs ih =>
    unfold insert
    split_ifs with h1 h2 h3
    · exact join_ordered hi (by simp) ⟨h1, h.2⟩
    · exact h
    · subst h3
      refine join_ordered h.1 (by simp) ?_
      have e : (⟨r.start, r.items ++ [a]⟩ : Run α).stop = r.stop + 1 := by simp [Run.stop, Nat.add_assoc]
      rw [e]
      exact h.2.2
    · exact ⟨h.1, h.2.1, ih (by omega) h.2.2⟩

/-- The item put at a free position is there. -/
theorem get_insert_self {lo : ℕ} {rs : List (Run α)} (h : Ordered lo rs) {i : ℕ} (a : α)
    (hi : get rs i = none) : get (insert i a rs) i = some a := by
  induction rs generalizing lo with
  | nil => simp [insert, get, Run.stop]
  | cons r rs ih =>
    unfold insert
    split_ifs with h1 h2 h3
    · rw [get_join]
      simp [get, Run.stop]
    · rw [get, if_neg h1, if_pos h2, List.getElem?_eq_none_iff] at hi
      unfold Run.stop at h2
      omega
    · subst h3
      rw [get_join, get_append_items, if_neg h1, if_neg (by simp [Run.stop])]
      simp [get, Run.stop]
    · rw [get_tail (by omega)] at hi ⊢
      exact ih h.2.2 hi

/-- Other positions keep their items. -/
theorem get_insert_of_ne {rs : List (Run α)} (i : ℕ) (a : α) {j : ℕ}
    (hj : j ≠ i) : get (insert i a rs) j = get rs j := by
  induction rs with
  | nil =>
    simp only [insert, get, Run.stop, List.length_singleton]
    by_cases h1 : j < i
    · rw [if_pos h1]
    · rw [if_neg h1]
      exact if_neg (by omega)
  | cons r rs ih =>
    unfold insert
    split_ifs with h1 h2 h3
    · rw [get_join]
      by_cases h4 : j < i
      · rw [get, if_pos h4, get, if_pos (by omega)]
      · rw [get_tail (by simp only [Run.stop, List.length_singleton]; omega)]
    · rfl
    · subst h3
      rw [get_join, get_append_items]
      simp only [Run.stop] at hj h1 ⊢
      by_cases h4 : j < r.start
      · rw [if_pos h4, get, if_pos h4]
      · by_cases h5 : j < r.start + r.items.length
        · rw [if_neg h4, if_pos h5, get, if_neg h4]
          exact (if_pos h5).symm
        · rw [if_neg h4, if_neg h5, get_tail (by simp only [Run.stop, List.length_singleton]; omega),
            get_tail (by simp only [Run.stop]; omega)]
    · by_cases h4 : j < r.stop
      · simp only [get, h4, if_true]
      · rw [get_tail (by omega), get_tail (by omega), ih]

theorem join_stop_le {m : ℕ} {r : Run α} {rs : List (Run α)} (hr : r.stop ≤ m)
    (h : ∀ x ∈ rs, x.stop ≤ m) : ∀ x ∈ join r rs, x.stop ≤ m := by
  cases rs with
  | nil => simpa [join] using hr
  | cons n ns =>
    have hn := h n List.mem_cons_self
    intro x hx
    simp only [join] at hx
    split_ifs at hx with hjoin
    · rcases List.mem_cons.mp hx with rfl | hx
      · simp only [Run.stop, List.length_append] at hn hjoin ⊢
        omega
      · exact h x (List.mem_cons_of_mem _ hx)
    · rcases List.mem_cons.mp hx with rfl | hx
      · exact hr
      · exact h x hx

/-- Inserting below a bound stays below it. -/
theorem insert_stop_le {m i : ℕ} {rs : List (Run α)} (a : α) (hi : i < m)
    (h : ∀ x ∈ rs, x.stop ≤ m) : ∀ x ∈ insert i a rs, x.stop ≤ m := by
  have hone : (⟨i, [a]⟩ : Run α).stop ≤ m := hi
  induction rs with
  | nil => simpa [insert] using hone
  | cons r rs ih =>
    have hr := h r List.mem_cons_self
    have hrs : ∀ x ∈ rs, x.stop ≤ m := fun x hx => h x (List.mem_cons_of_mem _ hx)
    unfold insert
    split_ifs with h1 h2 h3
    · exact join_stop_le hone h
    · exact h
    · refine join_stop_le ?_ hrs
      simp only [Run.stop, List.length_append, List.length_singleton] at h3 ⊢
      omega
    · intro x hx
      rcases List.mem_cons.mp hx with rfl | hx
      · exact hr
      · exact ih hrs x hx

end Runs
