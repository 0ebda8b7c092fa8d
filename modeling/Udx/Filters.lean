/-
# The windowed filter (win_filter.c)

The filter keeps three samples of a sequence: the best of all samples since it
was recorded, then the best since a later one, then the best since a later one
still. `win_filter_apply_min` and `win_filter_apply_max` are one algorithm with
two orders (`applyBy`). The first sample kept is never older than the window,
so that the filter gives the best of all samples since a point inside it.

Key definitions: `WinFilter.applyBy`, `WinFilter.applyMax`, `Leads`, `Windowed`.
Key theorems: `Ranked.applyBy`, `Ranked.inWindow`, `WinFilter.windowed`.
-/
import Udx.Congestion

namespace Udx

namespace WinFilter

/-- `win_filter_apply_min` and `win_filter_apply_max`: `r v w` says that `v` is
as good as `w`. -/
def applyBy (r : ℕ → ℕ → Prop) [DecidableRel r] (wf : WinFilter) (win t v : ℕ) : WinFilter :=
  if r v wf.e0.v ∨ sub64 t wf.e2.t > win then reset t v
  else
    let new : WinFilterEntry := ⟨t, v⟩
    let wf :=
      if r v wf.e1.v then ⟨wf.e0, new, new⟩
      else if r v wf.e2.v then ⟨wf.e0, wf.e1, new⟩
      else wf
    applyCommon wf win t v

/-- `win_filter_apply_max`. -/
def applyMax (wf : WinFilter) (win t v : ℕ) : WinFilter := wf.applyBy (· ≥ ·) win t v

theorem sub64_eq {a b : ℕ} (h : b ≤ a) (ha : a < 2 ^ 64) : sub64 a b = a - b := by
  unfold sub64
  omega

end WinFilter

/-! ### What the entries are -/

/-- Entry `e` is sample `i`, and as good as each sample from there to `n`. -/
structure Leads (r : ℕ → ℕ → Prop) (x : ℕ → WinFilterEntry) (n i : ℕ) (e : WinFilterEntry) : Prop where
  sample : e = x i
  past : i ≤ n
  best : ∀ j, i ≤ j → j ≤ n → r e.v (x j).v

/-- The three entries are samples, a later one after an earlier one. -/
def Ranked (r : ℕ → ℕ → Prop) (x : ℕ → WinFilterEntry) (n : ℕ) (wf : WinFilter) : Prop :=
  ∃ i j k, i ≤ j ∧ j ≤ k ∧ Leads r x n i wf.e0 ∧ Leads r x n j wf.e1 ∧ Leads r x n k wf.e2

/-- What the filter keeps after sample `n`: the entries are ordered by time and
value, each is as good as all samples since it was recorded, and the first is
not older than the window. -/
structure Windowed (r : ℕ → ℕ → Prop) (win : ℕ) (x : ℕ → WinFilterEntry) (n : ℕ) (wf : WinFilter) : Prop where
  times : wf.e0.t ≤ wf.e1.t ∧ wf.e1.t ≤ wf.e2.t
  values : r wf.e0.v wf.e1.v ∧ r wf.e1.v wf.e2.v
  leads : ∀ e ∈ [wf.e0, wf.e1, wf.e2], ∃ i, Leads r x n i e
  window : ∃ i, Leads r x n i wf.e0 ∧ (x n).t ≤ (x i).t + win ∧ wf.get = (x i).v

section

variable {r : ℕ → ℕ → Prop} {win : ℕ} {x : ℕ → WinFilterEntry} {n : ℕ} {wf : WinFilter}

theorem Leads.new (hr : ∀ v, r v v) (n : ℕ) : Leads r x n n (x n) := by
  refine ⟨rfl, Nat.le_refl n, fun j hj hn => ?_⟩
  have hjn : j = n := by omega
  rw [hjn]
  exact hr _

/-- An entry that is as good as the next sample leads on. -/
theorem Leads.next {i : ℕ} {e : WinFilterEntry} (h : Leads r x n i e) (he : r e.v (x (n + 1)).v) :
    Leads r x (n + 1) i e := by
  refine ⟨h.sample, Nat.le_succ_of_le h.past, fun j hj hn => ?_⟩
  rcases Nat.lt_or_eq_of_le hn with hlt | rfl
  · exact h.best j hj (by omega)
  · exact he

theorem le_of_steps (ht : ∀ n, (x n).t ≤ (x (n + 1)).t) {i j : ℕ} (h : i ≤ j) : (x i).t ≤ (x j).t := by
  induction h with
  | refl => exact Nat.le_refl _
  | step _ ih => exact Nat.le_trans ih (ht _)

theorem Ranked.inWindow (h : Ranked r x n wf) (ht : ∀ n, (x n).t ≤ (x (n + 1)).t)
    (hwin : (x n).t ≤ wf.e0.t + win) : Windowed r win x n wf := by
  obtain ⟨i, j, k, hij, hjk, h0, h1, h2⟩ := h
  refine ⟨⟨?_, ?_⟩, ⟨?_, ?_⟩, ?_, i, h0, ?_, ?_⟩
  · rw [h0.sample, h1.sample]
    exact le_of_steps ht hij
  · rw [h1.sample, h2.sample]
    exact le_of_steps ht hjk
  · rw [h1.sample]
    exact h0.best j hij h1.past
  · rw [h2.sample]
    exact h1.best k hjk h2.past
  · simp only [List.mem_cons, List.not_mem_nil, or_false, forall_eq_or_imp, forall_eq]
    exact ⟨⟨i, h0⟩, ⟨j, h1⟩, ⟨k, h2⟩⟩
  · rw [← h0.sample]
    exact hwin
  · exact congrArg WinFilterEntry.v h0.sample

/-! ### One sample -/

/-- What follows the choice of entries: the window moves on, and entries that
are too close to each other are told apart. -/
theorem Ranked.applyCommon (h : Ranked r x n wf) (hr : ∀ v, r v v) (ht : ∀ n, (x n).t ≤ (x (n + 1)).t)
    (h64 : (x n).t < 2 ^ 64) (hwin : win < 2 ^ 31) (hold : (x n).t ≤ wf.e0.t + 2 * win)
    (hin : (x n).t ≤ wf.e2.t + win) :
    let wf' := wf.applyCommon win (x n).t (x n).v
    Ranked r x n wf' ∧ (x n).t ≤ wf'.e0.t + win := by
  obtain ⟨i, j, k, hij, hjk, h0, h1, h2⟩ := h
  have hnew := Leads.new (x := x) hr n
  have hle : ∀ {m : ℕ} {e : WinFilterEntry}, Leads r x n m e → e.t ≤ (x n).t := fun he => by
    rw [he.sample]
    exact le_of_steps ht he.past
  have hsub : ∀ {m : ℕ} {e : WinFilterEntry}, Leads r x n m e → WinFilter.sub64 (x n).t e.t = (x n).t - e.t :=
    fun he => WinFilter.sub64_eq (hle he) h64
  have hdt : ((x n).t - wf.e0.t) % 2 ^ 32 = (x n).t - wf.e0.t := Nat.mod_eq_of_lt (by omega)
  unfold WinFilter.applyCommon
  dsimp only
  rw [hsub h0, hdt, hsub h1]
  split
  · -- the first entry has left the window
    split
    · exact ⟨⟨k, n, n, h2.past, Nat.le_refl n, h2, hnew, hnew⟩, hin⟩
    · exact ⟨⟨j, k, n, hjk, h2.past, h1, h2, hnew⟩, by dsimp only; omega⟩
  · split
    · exact ⟨⟨i, n, n, h0.past, Nat.le_refl n, h0, hnew, hnew⟩, by dsimp only; omega⟩
    · split
      · exact ⟨⟨i, j, n, hij, h1.past, h0, h1, hnew⟩, by dsimp only; omega⟩
      · exact ⟨⟨i, j, k, hij, hjk, h0, h1, h2⟩, by omega⟩

theorem Ranked.applyBy [DecidableRel r] (h : Ranked r x n wf) (hr : ∀ v w, r v w ∨ r w v)
    (ht : ∀ n, (x n).t ≤ (x (n + 1)).t) (h64 : (x (n + 1)).t < 2 ^ 64) (hwin : win < 2 ^ 31)
    (hold : (x n).t ≤ wf.e0.t + win) :
    let wf' := wf.applyBy r win (x (n + 1)).t (x (n + 1)).v
    Ranked r x (n + 1) wf' ∧ (x (n + 1)).t ≤ wf'.e0.t + win := by
  have hrefl : ∀ v, r v v := fun v => (hr v v).elim id id
  have hnew := Leads.new (x := x) hrefl (n + 1)
  obtain ⟨i, j, k, hij, hjk, h0, h1, h2⟩ := h
  have hlast : wf.e2.t ≤ (x n).t := by
    rw [h2.sample]
    exact le_of_steps ht h2.past
  have hsub : WinFilter.sub64 (x (n + 1)).t wf.e2.t = (x (n + 1)).t - wf.e2.t :=
    WinFilter.sub64_eq (Nat.le_trans hlast (ht n)) h64
  unfold WinFilter.applyBy
  dsimp only
  rw [hsub]
  split
  · exact ⟨⟨n + 1, n + 1, n + 1, Nat.le_refl _, Nat.le_refl _, hnew, hnew, hnew⟩, Nat.le_add_right ..⟩
  · next hkeep =>
    obtain ⟨hworse, hin⟩ := not_or.mp hkeep
    have h0' := h0.next ((hr _ _).resolve_left hworse)
    have hold' : (x (n + 1)).t ≤ wf.e0.t + 2 * win := by omega
    split
    · -- better than the second best
      exact Ranked.applyCommon ⟨i, n + 1, n + 1, h0'.past, Nat.le_refl _, h0', hnew, hnew⟩ hrefl ht h64 hwin hold'
        (Nat.le_add_right ..)
    · next hworse1 =>
      have h1' := h1.next ((hr _ _).resolve_left hworse1)
      split
      · -- better than the third best
        exact Ranked.applyCommon ⟨i, j, n + 1, hij, h1'.past, h0', h1', hnew⟩ hrefl ht h64 hwin hold'
          (Nat.le_add_right ..)
      · next hworse2 =>
        have h2' := h2.next ((hr _ _).resolve_left hworse2)
        exact Ranked.applyCommon ⟨i, j, k, hij, hjk, h0', h1', h2'⟩ hrefl ht h64 hwin hold' (by omega)

end

/-! ### Sequences of samples -/

namespace WinFilter

/-- The filter after sample `n`, where sample 0 starts it. -/
def after (apply : WinFilter → ℕ → ℕ → ℕ → WinFilter) (win : ℕ) (x : ℕ → WinFilterEntry) : ℕ → WinFilter
  | 0 => reset (x 0).t (x 0).v
  | n + 1 => apply (after apply win x n) win (x (n + 1)).t (x (n + 1)).v

theorem after_ranked {r : ℕ → ℕ → Prop} [DecidableRel r] {win : ℕ} {x : ℕ → WinFilterEntry}
    (hr : ∀ v w, r v w ∨ r w v) (hwin : win < 2 ^ 31) (ht : ∀ n, (x n).t ≤ (x (n + 1)).t)
    (h64 : ∀ n, (x n).t < 2 ^ 64) (n : ℕ) :
    Ranked r x n (after (applyBy r) win x n) ∧ (x n).t ≤ (after (applyBy r) win x n).e0.t + win := by
  induction n with
  | zero =>
    have hnew := Leads.new (x := x) (fun v => (hr v v).elim id id) 0
    exact ⟨⟨0, 0, 0, Nat.le_refl 0, Nat.le_refl 0, hnew, hnew, hnew⟩, Nat.le_add_right ..⟩
  | succ n ih => exact ih.1.applyBy hr ht (h64 (n + 1)) hwin ih.2

/-- After every sample the filters keep the best samples of the window. -/
theorem windowed {win : ℕ} {x : ℕ → WinFilterEntry} (hwin : win < 2 ^ 31) (ht : ∀ n, (x n).t ≤ (x (n + 1)).t)
    (h64 : ∀ n, (x n).t < 2 ^ 64) (n : ℕ) :
    Windowed (· ≤ ·) win x n (after applyMin win x n) ∧ Windowed (· ≥ ·) win x n (after applyMax win x n) := by
  have hmin := after_ranked (r := (· ≤ ·)) Nat.le_total hwin ht h64 n
  have hmax := after_ranked (r := (· ≥ ·)) (fun v w => Nat.le_total w v) hwin ht h64 n
  exact ⟨hmin.1.inWindow ht hmin.2, hmax.1.inWindow ht hmax.2⟩

/-- On a ramp the filter gives up its minimum when that leaves the window. -/
theorem windowed_ramp :
    let x : ℕ → WinFilterEntry := fun n => ⟨min (10 * n) 1000, n⟩
    (after applyMin 40 x 4).get = 0 ∧ (after applyMin 40 x 5).get = 2 ∧
      Windowed (· ≤ ·) 40 x 5 (after applyMin 40 x 5) ∧ Windowed (· ≥ ·) 40 x 5 (after applyMax 40 x 5) :=
  ⟨by decide, by decide, windowed (by decide) (fun n => by dsimp only; omega) (fun n => by dsimp only; omega) 5⟩

end WinFilter

end Udx
