/-
# 32-bit serial numbers

Sequence numbers are 32-bit words compared by the sign of their wrapped
difference. A window of them is described by offsets from a base: `nth s n`
is the `n`-th number from `s`. Differences and comparisons of two numbers of
a window are those of their offsets, as long as the offsets are less than
half the space apart.

Key definitions: `seqDiff`, `seqCompare`, `nth`.
Key theorems: `seqDiff_nth`, `nth_inj`, `toNat_sub_nth`, `exists_nth`.
-/
import Mathlib.Algebra.Group.Nat.Defs
import Mathlib.Algebra.Group.Int.Defs
import Mathlib.Tactic.SplitIfs

namespace Serial

/-- A 32-bit sequence number. -/
abbrev SeqNo := BitVec 32

/-- The signed 32-bit difference of two sequence numbers. -/
def seqDiff (a b : SeqNo) : ℤ := (a - b).toInt

/-- Serial-number comparison: the sign of the difference. -/
def seqCompare (a b : SeqNo) : ℤ :=
  if seqDiff a b < 0 then -1 else if seqDiff a b > 0 then 1 else 0

/-- The `n`-th sequence number from `s`. -/
def nth (s : SeqNo) (n : ℕ) : SeqNo := s + BitVec.ofNat 32 n

@[simp] theorem nth_zero (s : SeqNo) : nth s 0 = s := by simp [nth]

theorem nth_succ (s : SeqNo) (n : ℕ) : nth s (n + 1) = nth s n + 1 := by
  unfold nth; bv_omega

theorem nth_add (s : SeqNo) (m n : ℕ) : nth s (m + n) = nth (nth s m) n := by
  unfold nth; bv_omega

theorem toNat_sub_nth (s : SeqNo) {i j : ℕ} (h : j ≤ i) (hd : i - j < 2 ^ 32) :
    (nth s i - nth s j).toNat = i - j := by
  unfold nth; bv_omega

/-- The difference of two numbers of a window is that of their offsets. -/
theorem seqDiff_nth (s : SeqNo) {i j : ℕ} (h1 : i < j + 2 ^ 31) (h2 : j ≤ i + 2 ^ 31) :
    seqDiff (nth s i) (nth s j) = (i : ℤ) - j := by
  unfold seqDiff
  rw [BitVec.toInt_eq_toNat_cond]
  rcases Nat.le_total j i with h | h
  · rw [toNat_sub_nth s h (by omega)]
    split <;> omega
  · rcases Nat.eq_or_lt_of_le h with rfl | hlt
    · simp
    · have e : (nth s i - nth s j).toNat = 2 ^ 32 - (j - i) := by unfold nth; bv_omega
      rw [e]
      split <;> omega

/-- Offsets less than the whole space apart name different numbers. -/
theorem nth_inj {s : SeqNo} {i j : ℕ} (hij : i < j + 2 ^ 32) (hji : j < i + 2 ^ 32)
    (h : nth s i = nth s j) : i = j := by
  unfold nth at h
  have := congrArg BitVec.toNat (BitVec.add_right_inj s |>.mp h)
  simp only [BitVec.toNat_ofNat] at this
  omega

/-- Every number is in the window that starts at `s`. -/
theorem exists_nth (s a : SeqNo) : a = nth s (a - s).toNat := by
  unfold nth; bv_omega

theorem seqCompare_neg {a b : SeqNo} : seqCompare a b < 0 ↔ seqDiff a b < 0 := by
  unfold seqCompare; split_ifs <;> omega

theorem seqCompare_pos {a b : SeqNo} : seqCompare a b > 0 ↔ seqDiff a b > 0 := by
  unfold seqCompare; split_ifs <;> omega

theorem seqCompare_nonpos {a b : SeqNo} : seqCompare a b ≤ 0 ↔ seqDiff a b ≤ 0 := by
  unfold seqCompare; split_ifs <;> omega

end Serial
