/-
# Polling the interface addresses (udx.c, `on_interface_event_interval`)

Each poll compares the addresses with those of the poll before, in place; at the
first difference both lists are sorted and the comparison starts again, at the
second place. So a change of the smallest address alone is not seen.

Key definitions: `cmpInterface`, `Listener`, `compareLoop`, `Listener.poll`.
Key theorems: `Listener.flag_right`, `Listener.reports_iff`.
-/
import Mathlib.Order.Defs.LinearOrder
import Mathlib.Data.List.Sort

namespace Interfaces

/-- `uv_interface_address_t`, what `cmp_interface` tells apart of it. -/
structure Interface (P A : Type) where
  physAddr : P
  address : A
  deriving DecidableEq

variable {P A : Type} [LinearOrder P] [LinearOrder A]

/-- `cmp_interface`. -/
def cmpInterface (a b : Interface P A) : Ordering :=
  match compare a.physAddr b.physAddr with
  | .eq => compare a.address b.address
  | result => result

/-- `a` may stand before `b`. -/
def leInterface (a b : Interface P A) : Bool := cmpInterface a b != .gt

theorem cmpInterface_eq_iff {a b : Interface P A} : cmpInterface a b = .eq ↔ a = b := by
  obtain ⟨pa, aa⟩ := a
  obtain ⟨pb, ab⟩ := b
  unfold cmpInterface
  rw [Interface.mk.injEq]
  split
  · next h =>
    rw [compare_eq_iff_eq]
    exact ⟨fun ha => ⟨compare_eq_iff_eq.mp h, ha⟩, And.right⟩
  · next h =>
    have hne : pa ≠ pb := fun e => h (compare_eq_iff_eq.mpr e)
    exact ⟨fun hr => absurd hr h, fun hr => absurd hr.1 hne⟩

theorem leInterface_iff {a b : Interface P A} :
    leInterface a b = true ↔
      a.physAddr < b.physAddr ∨ a.physAddr = b.physAddr ∧ a.address ≤ b.address := by
  unfold leInterface cmpInterface
  rw [bne_iff_ne]
  split
  · next h =>
    have he := compare_eq_iff_eq.mp h
    simp [he, compare_le_iff_le]
  · next h =>
    have hne : a.physAddr ≠ b.physAddr := fun e => h (compare_eq_iff_eq.mpr e)
    rw [compare_le_iff_le]
    exact ⟨fun hle => .inl (lt_of_le_of_ne hle hne), fun hlt => (hlt.resolve_right fun e => hne e.1).le⟩

theorem leInterface_trans (a b c : Interface P A) (hab : leInterface a b = true)
    (hbc : leInterface b c = true) : leInterface a c = true := by
  rw [leInterface_iff] at *
  rcases hab with hab | ⟨hab, hab'⟩ <;> rcases hbc with hbc | ⟨hbc, hbc'⟩
  · exact .inl (hab.trans hbc)
  · exact .inl (hbc ▸ hab)
  · exact .inl (hab ▸ hbc)
  · exact .inr ⟨hab.trans hbc, hab'.trans hbc'⟩

theorem leInterface_total (a b : Interface P A) : (leInterface a b || leInterface b a) = true := by
  rw [Bool.or_eq_true, leInterface_iff, leInterface_iff]
  rcases lt_trichotomy a.physAddr b.physAddr with h | h | h
  · exact .inl (.inl h)
  · rcases le_total a.address b.address with h' | h'
    · exact .inl (.inr ⟨h, h'⟩)
    · exact .inr (.inr ⟨h.symm, h'⟩)
  · exact .inr (.inl h)

theorem leInterface_antisymm {a b : Interface P A} (hab : leInterface a b = true)
    (hba : leInterface b a = true) : a = b := by
  rw [leInterface_iff] at *
  obtain ⟨pa, aa⟩ := a
  obtain ⟨pb, ab⟩ := b
  rcases hab with hab | ⟨hab, hab'⟩ <;> rcases hba with hba | ⟨hba, hba'⟩
  · exact absurd hab hba.asymm
  · exact absurd hab (hba ▸ lt_irrefl _)
  · exact absurd hba (hab ▸ lt_irrefl _)
  · exact Interface.mk.injEq .. ▸ ⟨hab, le_antisymm hab' hba'⟩

/-- The list is in the order of `cmp_interface`. -/
def Ordered (addrs : List (Interface P A)) : Prop := addrs.Pairwise (leInterface · ·)

/-- `qsort` with `cmp_interface`. -/
def qsort (addrs : List (Interface P A)) : List (Interface P A) := addrs.mergeSort leInterface

theorem qsort_perm (addrs : List (Interface P A)) : (qsort addrs).Perm addrs :=
  List.mergeSort_perm ..

theorem qsort_ordered (addrs : List (Interface P A)) : Ordered (qsort addrs) :=
  List.pairwise_mergeSort leInterface_trans leInterface_total addrs

theorem Ordered.eq_of_perm {xs ys : List (Interface P A)} (hx : Ordered xs) (hy : Ordered ys)
    (h : xs.Perm ys) : xs = ys :=
  h.eq_of_pairwise (fun _ _ _ _ hab hba => leInterface_antisymm hab hba) hx hy

theorem Ordered.qsort_eq {xs : List (Interface P A)} (h : Ordered xs) : qsort xs = xs :=
  (qsort_ordered xs).eq_of_perm h (qsort_perm xs)

/-- Sorting decides whether two lists are one multiset. -/
theorem qsort_eq_iff {xs ys : List (Interface P A)} : qsort xs = qsort ys ↔ xs.Perm ys := by
  constructor
  · intro h
    exact (qsort_perm xs).symm.trans (h ▸ qsort_perm ys)
  · intro h
    exact (qsort_ordered xs).eq_of_perm (qsort_ordered ys)
      ((qsort_perm xs).trans (h.trans (qsort_perm ys).symm))

/-! ### A poll -/

/-- `udx_interface_event_t`, the state of its polls. -/
structure Listener (P A : Type) where
  addrs : List (Interface P A)
  sorted : Bool := false

/-- What `uv_interface_addresses` does. A call that fails returns its error and
leaves the two out parameters alone, or cleared. -/
inductive Answer (P A : Type)
  | ok (addrs : List (Interface P A))
  | error (err : ℤ) (cleared : Bool)

/-- The comparison loop, from index `i` on: whether it sets `changed`, the
addresses as it leaves them, and `sorted`. -/
def compareLoop (prevSorted : Bool) (addrs prev : List (Interface P A)) (sorted : Bool) (i : ℕ) :
    Bool × List (Interface P A) × Bool :=
  if h : i < addrs.length then
    if (prev[i]?.map (cmpInterface addrs[i])) = some .eq then
      compareLoop prevSorted addrs prev sorted (i + 1)
    else if sorted then (true, addrs, true)
    else
      -- `i = 0`, and the loop adds 1 before it goes on
      compareLoop prevSorted (qsort addrs) (if prevSorted then prev else qsort prev) true 1
  else (false, addrs, sorted)
termination_by (if sorted then 0 else 1, addrs.length - i)
decreasing_by
  · exact Prod.Lex.right _ (by omega)
  · next hs => exact Prod.Lex.left _ _ (by simp [hs])

/-- `on_interface_event_interval`: the handle after it, and the status it calls
`on_event` with, if it does. -/
def Listener.poll (handle : Listener P A) : Answer P A → Listener P A × Option ℤ
  | .error err cleared => ({ handle with addrs := if cleared then [] else handle.addrs }, some err)
  | .ok addrs =>
    if addrs.length ≠ handle.addrs.length then ({ addrs, sorted := false }, some 0)
    else
      let (changed, addrs, sorted) := compareLoop handle.sorted addrs handle.addrs false 0
      if changed then ({ addrs, sorted }, some 0) else ({ addrs, sorted := handle.sorted }, none)

/-- The handle after `udx_interface_event_init` and the polls of `history`, the newest first. -/
def Listener.after (addrs : List (Interface P A)) : List (Answer P A) → Listener P A
  | [] => { addrs }
  | answer :: history => ((after addrs history).poll answer).1

/-! ### The loop -/

theorem same_iff {addrs prev : List (Interface P A)} {i : ℕ} (hi : i < addrs.length)
    (hp : i < prev.length) :
    prev[i]?.map (cmpInterface addrs[i]) = some .eq ↔ addrs[i] = prev[i] := by
  rw [List.getElem?_eq_getElem hp, Option.map_some, Option.some.injEq, cmpInterface_eq_iff]

theorem drop_eq_iff {α : Type} {xs ys : List α} {i : ℕ} (hi : i < xs.length) (hp : i < ys.length) :
    xs.drop i = ys.drop i ↔ xs[i] = ys[i] ∧ xs.drop (i + 1) = ys.drop (i + 1) := by
  rw [List.drop_eq_getElem_cons hi, List.drop_eq_getElem_cons hp, List.cons.injEq]

/-- Once sorted, the loop only compares. -/
theorem compareLoop_sorted (prevSorted : Bool) {addrs prev : List (Interface P A)}
    (hlen : addrs.length = prev.length) (i : ℕ) :
    compareLoop prevSorted addrs prev true i = (decide (addrs.drop i ≠ prev.drop i), addrs, true) := by
  induction hn : addrs.length - i generalizing i with
  | zero =>
    unfold compareLoop
    rw [dif_neg (by omega), List.drop_of_length_le (by omega), List.drop_of_length_le (by omega)]
    simp
  | succ n ih =>
    have hi : i < addrs.length := by omega
    have hp : i < prev.length := by omega
    unfold compareLoop
    rw [dif_pos hi]
    by_cases heq : addrs[i] = prev[i]
    · rw [if_pos ((same_iff hi hp).mpr heq), ih (i + 1) (by omega)]
      simp only [ne_eq, drop_eq_iff hi hp, heq, true_and]
    · rw [if_neg (mt (same_iff hi hp).mp heq), if_pos rfl]
      simp only [ne_eq, drop_eq_iff hi hp, heq, false_and, not_false_eq_true, decide_true]

/-- Before that it looks for the first difference. -/
theorem compareLoop_unsorted (prevSorted : Bool) {addrs prev : List (Interface P A)}
    (hlen : addrs.length = prev.length) (i : ℕ) :
    compareLoop prevSorted addrs prev false i =
      if addrs.drop i = prev.drop i then (false, addrs, false)
      else compareLoop prevSorted (qsort addrs) (if prevSorted then prev else qsort prev) true 1 := by
  induction hn : addrs.length - i generalizing i with
  | zero =>
    rw [compareLoop, dif_neg (by omega), List.drop_of_length_le (by omega),
      List.drop_of_length_le (by omega), if_pos rfl]
  | succ n ih =>
    have hi : i < addrs.length := by omega
    have hp : i < prev.length := by omega
    rw [compareLoop, dif_pos hi]
    by_cases heq : addrs[i] = prev[i]
    · rw [if_pos ((same_iff hi hp).mpr heq), ih (i + 1) (by omega)]
      simp only [drop_eq_iff hi hp, heq, true_and]
    · rw [if_neg (mt (same_iff hi hp).mp heq), if_neg Bool.false_ne_true,
        if_neg fun h => heq ((drop_eq_iff hi hp).mp h).1]

theorem qsort_length (addrs : List (Interface P A)) : (qsort addrs).length = addrs.length :=
  (qsort_perm addrs).length_eq

/-! ### The polls -/

/-- The flag is true only of sorted addresses. -/
def Listener.Flagged (handle : Listener P A) : Prop := handle.sorted = true → Ordered handle.addrs

/-- Sorted, the two lists differ in the first place only. -/
def FirstOnly (xs ys : List (Interface P A)) : Prop :=
  xs.length = ys.length ∧ qsort xs ≠ qsort ys ∧ (qsort xs).drop 1 = (qsort ys).drop 1

/-- Between lists of one length the loop compares the sorted lists but for their first places. -/
theorem Listener.Flagged.compare {handle : Listener P A} (h : handle.Flagged) {addrs : List (Interface P A)}
    (hlen : addrs.length = handle.addrs.length) :
    compareLoop handle.sorted addrs handle.addrs false 0 =
      if addrs = handle.addrs then (false, addrs, false)
      else (decide ((qsort addrs).drop 1 ≠ (qsort handle.addrs).drop 1), qsort addrs, true) := by
  have hprev : (if handle.sorted then handle.addrs else qsort handle.addrs) = qsort handle.addrs := by
    split
    · next hs => exact (h hs).qsort_eq.symm
    · rfl
  rw [compareLoop_unsorted _ hlen, List.drop_zero, List.drop_zero, hprev,
    compareLoop_sorted _ (by rw [qsort_length, qsort_length, hlen])]

/-- A poll keeps the flag right. -/
theorem Listener.Flagged.poll {handle : Listener P A} (h : handle.Flagged) (answer : Answer P A) :
    (handle.poll answer).1.Flagged := by
  cases answer with
  | error err cleared =>
    cases cleared with
    | true => exact fun _ => List.Pairwise.nil
    | false => exact h
  | ok addrs =>
    unfold Listener.poll
    dsimp only
    split
    · exact fun hs => by cases hs
    · next hlen =>
      rw [h.compare (not_not.mp hlen)]
      by_cases heq : addrs = handle.addrs
      · rw [if_pos heq]
        exact fun hs => heq ▸ h hs
      · rw [if_neg heq]
        dsimp only
        split
        · exact fun _ => qsort_ordered addrs
        · exact fun _ => qsort_ordered addrs

/-- The flag is right after every history. -/
theorem Listener.flag_right (first : List (Interface P A)) (history : List (Answer P A)) :
    (after first history).Flagged := by
  induction history with
  | nil => exact fun hs => by cases hs
  | cons answer history ih => exact ih.poll answer

/-- What a poll reports: another length, or another sorted list after its first place. -/
theorem Listener.Flagged.reports {handle : Listener P A} (h : handle.Flagged)
    (addrs : List (Interface P A)) :
    (handle.poll (.ok addrs)).2 = some 0 ↔
      addrs.length ≠ handle.addrs.length ∨ (qsort addrs).drop 1 ≠ (qsort handle.addrs).drop 1 := by
  unfold Listener.poll
  dsimp only
  split
  · next hlen => exact ⟨fun _ => .inl hlen, fun _ => rfl⟩
  · next hlen =>
    rw [h.compare (not_not.mp hlen)]
    by_cases heq : addrs = handle.addrs
    · rw [if_pos heq, heq]
      simp
    · rw [if_neg heq]
      simp only [decide_eq_true_eq]
      split
      · next hne => exact ⟨fun _ => .inr hne, fun _ => rfl⟩
      · next hne =>
        constructor
        · intro hs
          cases hs
        · intro hs
          exact absurd hs (not_or.mpr ⟨hlen, hne⟩)

/-- After any polls, the next one is exact, and leaves the flag right, if and
only if the sorted lists do not differ in their first place alone. -/
theorem Listener.reports_iff (first : List (Interface P A)) (history : List (Answer P A))
    (addrs : List (Interface P A)) :
    (((after first history).poll (.ok addrs)).2 = some 0 ↔ ¬ addrs.Perm (after first history).addrs) ∧
        ((after first (.ok addrs :: history)).sorted = true →
          Ordered (after first (.ok addrs :: history)).addrs) ↔
      ¬ FirstOnly addrs (after first history).addrs := by
  have h := flag_right first history
  have hflag := flag_right first (.ok addrs :: history)
  refine (and_iff_left hflag).trans ?_
  rw [h.reports, ← qsort_eq_iff]
  generalize after first history = handle
  unfold FirstOnly
  constructor
  · rintro hiff ⟨hlen, hne, hdrop⟩
    rcases hiff.mpr hne with h | h
    · exact h hlen
    · exact h hdrop
  · intro hnot
    constructor
    · rintro (hlen | hdrop) heq
      · exact hlen (by rw [← qsort_length, heq, qsort_length])
      · exact hdrop (by rw [heq])
    · intro hne
      by_cases hlen : addrs.length = handle.addrs.length
      · exact .inr fun hdrop => hnot ⟨hlen, hne, hdrop⟩
      · exact .inl hlen

/-- The one address of a host changes from 1 to 2. -/
theorem Listener.reports_renumbered :
    ¬ (((after [(⟨0, 1⟩ : Interface ℕ ℕ)] []).poll (.ok [⟨0, 2⟩])).2 = some 0 ↔
      ¬ [(⟨0, 2⟩ : Interface ℕ ℕ)].Perm (after [(⟨0, 1⟩ : Interface ℕ ℕ)] []).addrs) := by
  have h := flag_right [(⟨0, 1⟩ : Interface ℕ ℕ)] []
  rw [h.reports]
  simp [after, qsort]

end Interfaces
