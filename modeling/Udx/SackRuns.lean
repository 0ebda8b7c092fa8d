/-
# Every sequence of insertions and removals

In any sequence of calls on blocks of one window the memory shows the red-black
tree of the blocks that were inserted and not removed, and the walk with
`udx_sack_tree_next` is that tree in order.

Key definitions: `SackOp.heap`, `SackOp.tree`, `Stands`.
Key theorems: `udxSackTreeNext_spec`, `walk_spec`, `SackOp.stands`.
-/
import Udx.SackRemovals
import Mathlib.Data.List.Nodup
import Mathlib.Data.List.Perm.Subperm

namespace Udx.SackNodes

open Serial RedBlack

/-! ### Walking the blocks in order -/

section

variable {h : Heap} {k : Ctx ℕ} {c : Color} {v fuel : ℕ} {t l r : RedBlack.Tree ℕ}

theorem udxSackTreeMin_spec (hs : h.Shows .top t) (hfuel : t.toList.length ≤ fuel) :
    udxSackTreeMin fuel h = some t.toList.head? := by
  unfold udxSackTreeMin
  rw [show h.root = t.ptr from hs.spine]
  rcases eq_or_ne t .leaf with rfl | ht
  · exact if_pos rfl
  · obtain ⟨c, s, r, hmin, hmin', -⟩ := rbtreeMin_spec hs ht hfuel
    obtain ⟨-, hlist⟩ := Tree.leftmost_toList hmin .top
    rw [if_neg (mt hs.ptr_eq_zero.mp ht), hmin']
    rw [show t.toList = t.toList ++ (Ctx.top : Ctx ℕ).after by simp [Ctx.after], ← hlist]
    rfl

theorem climb_spec (hs : h.Shows k t) (ht : t ≠ .leaf) (hfuel : k.nodes.length < fuel) :
    climb fuel t.ptr h = some k.after.head? := by
  induction k using Ctx.sides generalizing t fuel with
  | top =>
    obtain ⟨fuel, rfl⟩ := Nat.exists_eq_succ_of_ne_zero (Nat.ne_of_gt hfuel)
    rw [climb, if_pos (hs.root_iff.mpr rfl)]
    rfl
  | down d c v s up ih =>
    obtain ⟨fuel, rfl⟩ := Nat.exists_eq_succ_of_ne_zero (Nat.ne_of_gt (Nat.zero_lt_of_lt hfuel))
    have hroot : t.ptr ≠ h.root := by
      rw [ne_eq, hs.root_iff]
      exact Ctx.down_ne_top
    have hstep : climb (fuel + 1) t.ptr h =
        if h.child v .left = some t.ptr then some (some v) else climb fuel v h := by
      rw [climb, if_neg hroot, hs.parent ht, Ctx.above_down]
      rfl
    have hside := hs.left_iff (.inl ht)
    rw [hstep]
    cases d with
    | left =>
      rw [if_pos (hside.mpr rfl)]
      rfl
    | right =>
      rw [if_neg (mt hside.mp nofun)]
      have hlen : up.nodes.length < fuel := by
        simp only [Ctx.length_nodes_down] at hfuel
        omega
      have hup := ih (Heap.Shows.down.mp hs) Tree.join_ne_leaf hlen
      rw [Tree.ptr_join] at hup
      exact hup

theorem udxSackTreeNext_spec (hs : h.Shows k (.node c l v r))
    (hfuel : (k.fill (.node c l v r)).toList.length < fuel) : udxSackTreeNext fuel v h = some (r.toList ++ k.after).head? := by
  have hr := (Heap.Shows.down (d := .right) (s := l)).mpr hs
  rw [Tree.length_fill, Tree.toList_node] at hfuel
  simp only [List.length_append, List.length_cons] at hfuel
  unfold udxSackTreeNext
  rw [hr.child.1]
  simp only [Option.bind_eq_bind, Option.bind_some]
  rcases eq_or_ne r .leaf with rfl | hne
  · rw [if_neg (by simp)]
    exact climb_spec hs nofun (by omega)
  · have hrlen : r.toList.length ≤ fuel := by omega
    obtain ⟨c', s, rs, hmin, hmin', -⟩ := rbtreeMin_spec hr hne hrlen
    obtain ⟨-, hlist⟩ := Tree.leftmost_toList hmin k
    rw [if_pos (mt hr.ptr_eq_zero.mp hne), hmin', ← hlist]
    rfl

/-- The rest of the walk is the rest of the tree. -/
theorem walk_spec {n : ℕ} {before rest : List ℕ} (hs : h.Shows .top t) (hfuel : t.toList.length < fuel)
    (hsplit : t.toList = before ++ rest) (hn : rest.length ≤ n) : walk fuel n rest.head? h = some rest := by
  induction rest generalizing before n with
  | nil => cases n <;> rfl
  | cons v rest ih =>
    obtain ⟨n, rfl⟩ : ∃ m, n = m + 1 :=
      Nat.exists_eq_succ_of_ne_zero (by rintro rfl; simp at hn)
    obtain ⟨k, c, l, r, rfl⟩ := Tree.exists_place (t := t) (v := v) (by simp [hsplit])
    have hlist : (k.fill (.node c l v r)).toList = (k.before ++ l.toList) ++ v :: (r.toList ++ k.after) := by
      simp
    have hnd : (before ++ v :: rest).Nodup := hsplit ▸ hs.nodup
    have hrest : rest = r.toList ++ k.after := by
      have hnd' : ((k.before ++ l.toList) ++ v :: (r.toList ++ k.after)).Nodup := hlist ▸ hs.nodup
      rw [List.nodup_middle, List.nodup_cons, List.mem_append, not_or] at hnd hnd'
      exact ((List.append_cons_inj_of_notMem hnd'.1.1 hnd'.1.2).mp (hlist.symm.trans hsplit)).2.2.symm
    have hnext := udxSackTreeNext_spec (Heap.Shows.fill.mp hs) hfuel
    have hsplit' : (k.fill (.node c l v r)).toList = (before ++ [v]) ++ rest := by simp [hsplit]
    have hih := ih hsplit' (Nat.le_of_succ_le_succ hn)
    rw [← hrest] at hnext
    simp [walk, hnext, hih]

end

/-! ### Every sequence of insertions and removals -/

inductive SackOp
  | insert (block : ℕ)
  | remove (block : ℕ)

namespace SackOp

def block : SackOp → ℕ
  | insert b => b
  | remove b => b

/-- The blocks in the tree after the operations, the newest first. -/
def blocks : List SackOp → List ℕ
  | [] => []
  | insert b :: ops => b :: blocks ops
  | remove b :: ops => (blocks ops).filter (· ≠ b)

/-- A block is inserted when it is not in the tree, and removed when it is. -/
def Allowed : List SackOp → Prop
  | [] => True
  | insert b :: ops => (b ≠ 0 ∧ b ∉ blocks ops) ∧ Allowed ops
  | remove b :: ops => b ∈ blocks ops ∧ Allowed ops

def decideAllowed : (ops : List SackOp) → Decidable (Allowed ops)
  | [] => isTrue trivial
  | insert _ :: ops => @instDecidableAnd _ _ _ (decideAllowed ops)
  | remove _ :: ops => @instDecidableAnd _ _ _ (decideAllowed ops)

instance (ops : List SackOp) : Decidable (Allowed ops) := decideAllowed ops

section

variable (start : ℕ → SeqNo)

/-- The blocks have distinct starts in a window of less than half the space. -/
def Near (ops : List SackOp) : Prop :=
  (∀ a ∈ ops, ∀ b ∈ ops, start a.block = start b.block → a.block = b.block) ∧
    ∃ base, ∀ a ∈ ops, off base (start a.block) < 2 ^ 31

/-- The tree in memory after the operations, the newest first. -/
def heap (fuel : ℕ) (mem : Heap) : List SackOp → Option Heap
  | [] => some (udxSackTreeInit mem)
  | insert b :: ops => (heap fuel mem ops).bind (udxSackTreeInsert start fuel b)
  | remove b :: ops => (heap fuel mem ops).bind (udxSackTreeRemove fuel b)

/-- The same operations on the tree. -/
def tree : List SackOp → RedBlack.Tree ℕ
  | [] => .leaf
  | insert b :: ops => (tree ops).insert (startsBefore start) b
  | remove b :: ops => (tree ops).remove (· = b)

end

end SackOp

/-- The heap is the tree `t`, which keeps the rules and holds `blocks` in
order. -/
structure Stands (start : ℕ → SeqNo) (fuel : ℕ) (blocks : List ℕ) (t : RedBlack.Tree ℕ) (h : Heap) : Prop where
  shows : h.Shows .top t
  sound : t.Sound
  sorted : t.toList.Pairwise fun a b => seqDiff (start a) (start b) < 0
  mem : ∀ b, b ∈ t.toList ↔ b ∈ blocks
  root : h.parent h.root = none
  walk : ∃ first, udxSackTreeMin fuel h = some first ∧ walk fuel fuel first h = some t.toList

namespace SackOp

variable {start : ℕ → SeqNo} {fuel : ℕ} {ops : List SackOp}

theorem Near.tail {op : SackOp} (h : Near start (op :: ops)) : Near start ops := by
  obtain ⟨hinj, base, hoff⟩ := h
  exact ⟨fun a ha b hb => hinj a (by simp [ha]) b (by simp [hb]), base, fun a ha => hoff a (by simp [ha])⟩

/-- What is in the tree was inserted. -/
theorem exists_insert {b : ℕ} (hb : b ∈ blocks ops) : ∃ op ∈ ops, op.block = b := by
  induction ops with
  | nil => cases hb
  | cons op ops ih =>
    cases op with
    | insert c =>
      rcases List.mem_cons.mp hb with rfl | hb
      · exact ⟨_, List.mem_cons_self, rfl⟩
      · obtain ⟨op, hop, heq⟩ := ih hb
        exact ⟨op, List.mem_cons_of_mem _ hop, heq⟩
    | remove c =>
      obtain ⟨op, hop, heq⟩ := ih (List.mem_filter.mp hb).1
      exact ⟨op, List.mem_cons_of_mem _ hop, heq⟩

theorem length_blocks (ops : List SackOp) : (blocks ops).length ≤ ops.length := by
  induction ops with
  | nil => exact Nat.le_refl 0
  | cons op ops ih =>
    cases op with
    | insert c => exact Nat.succ_le_succ ih
    | remove c => exact Nat.le_trans (List.length_filter_le ..) (Nat.le_succ_of_le ih)

/-- Of two blocks of the window one starts before the other. -/
theorem Near.total (h : Near start ops) {a b : ℕ} (ha : ∃ op ∈ ops, op.block = a) (hb : ∃ op ∈ ops, op.block = b)
    (hne : a ≠ b) (hlt : ¬ seqDiff (start a) (start b) < 0) : seqDiff (start b) (start a) < 0 := by
  obtain ⟨hinj, base, hoff⟩ := h
  obtain ⟨x, hx, rfl⟩ := ha
  obtain ⟨y, hy, rfl⟩ := hb
  rw [seqDiff_off (hoff x hx) (hoff y hy)] at hlt
  rw [seqDiff_off (hoff y hy) (hoff x hx)]
  have hoffne : off base (start x.block) ≠ off base (start y.block) := fun heq =>
    hne (hinj x hx y hy (off_inj heq))
  omega

theorem Near.trans (h : Near start ops) {a b c : ℕ} (ha : ∃ op ∈ ops, op.block = a) (hb : ∃ op ∈ ops, op.block = b)
    (hc : ∃ op ∈ ops, op.block = c) (hab : seqDiff (start a) (start b) < 0)
    (hbc : seqDiff (start b) (start c) < 0) : seqDiff (start a) (start c) < 0 := by
  obtain ⟨-, base, hoff⟩ := h
  obtain ⟨x, hx, rfl⟩ := ha
  obtain ⟨y, hy, rfl⟩ := hb
  obtain ⟨z, hz, rfl⟩ := hc
  rw [seqDiff_off (hoff x hx) (hoff y hy)] at hab
  rw [seqDiff_off (hoff y hy) (hoff z hz)] at hbc
  rw [seqDiff_off (hoff x hx) (hoff z hz)]
  omega

end SackOp

/-- The walk through all blocks. -/
theorem exists_walk {h : Heap} {t : RedBlack.Tree ℕ} {fuel : ℕ} (hs : h.Shows .top t)
    (hfuel : t.toList.length < fuel) : ∃ first, udxSackTreeMin fuel h = some first ∧ walk fuel fuel first h = some t.toList :=
  ⟨_, udxSackTreeMin_spec hs (Nat.le_of_lt hfuel),
    walk_spec hs hfuel (List.nil_append _).symm (Nat.le_of_lt hfuel)⟩

namespace Stands

open SackOp

variable {start : ℕ → SeqNo} {fuel b : ℕ} {ops : List SackOp} {t : RedBlack.Tree ℕ} {h : Heap}

theorem length_le (hst : Stands start fuel (blocks ops) t h) : t.toList.length ≤ ops.length := by
  have hnd : t.toList.Nodup := hst.shows.nodup
  have hsub : t.toList ⊆ blocks ops := fun u hu => (hst.mem u).mp hu
  exact Nat.le_trans (List.subperm_of_subset hnd hsub).length_le (length_blocks ops)

theorem init (start : ℕ → SeqNo) (fuel : ℕ) (mem : Heap) :
    Stands start fuel [] .leaf (udxSackTreeInit mem) := by
  have hs : (udxSackTreeInit mem).Shows .top .leaf := ⟨rfl, trivial, List.nodup_nil, nofun, rfl⟩
  refine ⟨hs, ⟨rfl, 0, rfl⟩, List.Pairwise.nil, fun b => Iff.rfl, rfl, none, rfl, ?_⟩
  cases fuel <;> rfl

theorem insert (hst : Stands start fuel (blocks ops) t h) (hnear : Near start (.insert b :: ops)) (hb0 : b ≠ 0)
    (hb : b ∉ blocks ops) (hfuel : ops.length + 1 < fuel) :
    ∃ h', udxSackTreeInsert start fuel b h = some h' ∧
      Stands start fuel (blocks (.insert b :: ops)) (t.insert (startsBefore start) b) h' := by
  have hlen := hst.length_le
  have hbt : b ∉ t.toList := mt (hst.mem b).mp hb
  have hbop : ∃ op ∈ SackOp.insert b :: ops, op.block = b := ⟨_, List.mem_cons_self, rfl⟩
  have hop : ∀ u ∈ t.toList, ∃ op ∈ SackOp.insert b :: ops, op.block = u := by
    intro u hu
    obtain ⟨op, hmem, heq⟩ := exists_insert ((hst.mem u).mp hu)
    exact ⟨op, List.mem_cons_of_mem _ hmem, heq⟩
  have hfuel' : t.toList.length < fuel := by omega
  obtain ⟨h', hins, hs'⟩ := udxSackTreeInsert_spec start hst.shows hst.sound hbt hb0 hfuel'
  have hmono : t.toList.Pairwise fun a c => startsBefore start b a = true → startsBefore start b c = true := by
    refine hst.sorted.imp_of_mem fun ha hc hac hba => ?_
    exact decide_eq_true (hnear.trans hbop (hop _ ha) (hop _ hc) (of_decide_eq_true hba) hac)
  obtain ⟨l₁, l₂, hsplit, hlist, h₁, h₂⟩ := Tree.insert_toList hmono
  have hcount : (t.insert (startsBefore start) b).toList.length = t.toList.length + 1 := by
    rw [hlist, hsplit]
    simp
    omega
  refine ⟨h', hins, hs', hst.sound.insert, ?_, fun u => ?_, hs'.root_parent (by simp [hlist]),
    exists_walk hs' (by omega)⟩
  · have hsorted := hst.sorted
    rw [hsplit, List.pairwise_append] at hsorted
    obtain ⟨hs₁, hs₂, hbetween⟩ := hsorted
    have hbefore : ∀ a ∈ l₁, seqDiff (start a) (start b) < 0 := by
      intro a ha
      have hat : a ∈ t.toList := by simp [hsplit, ha]
      exact hnear.total hbop (hop a hat) (by rintro rfl; exact hbt hat) (of_decide_eq_false (h₁ a ha))
    have hafter : ∀ c ∈ l₂, seqDiff (start b) (start c) < 0 := fun c hc => of_decide_eq_true (h₂ c hc)
    rw [hlist, List.pairwise_append, List.pairwise_cons]
    refine ⟨hs₁, ⟨hafter, hs₂⟩, fun a ha c hc => ?_⟩
    rcases List.mem_cons.mp hc with rfl | hc
    · exact hbefore a ha
    · exact hbetween a ha c hc
  · rw [hlist, blocks, List.mem_cons, ← hst.mem, hsplit]
    simp only [List.mem_append, List.mem_cons]
    grind

theorem remove (hst : Stands start fuel (blocks ops) t h) (hb : b ∈ blocks ops) (hfuel : ops.length < fuel) :
    ∃ h', udxSackTreeRemove fuel b h = some h' ∧
      Stands start fuel (blocks (.remove b :: ops)) (t.remove (· = b)) h' := by
  have hlen := hst.length_le
  have hbt : b ∈ t.toList := (hst.mem b).mpr hb
  have hfuel' : t.toList.length < fuel := by omega
  obtain ⟨h', hrem, hs', hroot⟩ := udxSackTreeRemove_spec hst.shows hst.sound hbt hfuel'
  obtain ⟨l₁, l₂, hsplit, hlist⟩ := Tree.remove_split hbt
  have hcount : (t.remove (· = b)).toList.length < fuel := by
    have hold := congrArg List.length hsplit
    rw [hlist]
    simp only [List.length_append, List.length_cons] at hold ⊢
    omega
  refine ⟨h', hrem, hs', hst.sound.remove, ?_, fun u => ?_, hroot, exists_walk hs' hcount⟩
  · have hsorted := hst.sorted
    rw [hsplit] at hsorted
    rw [hlist]
    exact hsorted.sublist (List.Sublist.append_left (List.sublist_cons_self ..) _)
  · have hnd : (l₁ ++ b :: l₂).Nodup := hsplit ▸ hst.shows.nodup
    rw [List.nodup_middle, List.nodup_cons, List.mem_append, not_or] at hnd
    rw [hlist, blocks, List.mem_filter, ← hst.mem, hsplit]
    simp only [List.mem_append, List.mem_cons, ne_eq, decide_eq_true_eq]
    grind

end Stands

/-- After every sequence of insertions and removals the tree in memory is the
red-black tree of the blocks. -/
theorem SackOp.stands {start : ℕ → SeqNo} {fuel : ℕ} {ops : List SackOp} (hallowed : Allowed ops)
    (hnear : Near start ops) (hfuel : ops.length < fuel) (mem : Heap) : ∃ h, heap start fuel mem ops = some h ∧
      Stands start fuel (blocks ops) (tree start ops) h := by
  induction ops with
  | nil => exact ⟨udxSackTreeInit mem, rfl, Stands.init start fuel mem⟩
  | cons op ops ih =>
    rw [List.length_cons] at hfuel
    cases op with
    | insert b =>
      obtain ⟨⟨hb0, hb⟩, hallowed⟩ := hallowed
      obtain ⟨h, hheap, hst⟩ := ih hallowed hnear.tail (Nat.lt_of_succ_lt hfuel)
      obtain ⟨h', hins, hst'⟩ := hst.insert hnear hb0 hb hfuel
      exact ⟨h', by rw [heap, hheap]; exact hins, hst'⟩
    | remove b =>
      obtain ⟨hb, hallowed⟩ := hallowed
      obtain ⟨h, hheap, hst⟩ := ih hallowed hnear.tail (Nat.lt_of_succ_lt hfuel)
      obtain ⟨h', hrem, hst'⟩ := hst.remove hb (Nat.lt_of_succ_lt hfuel)
      exact ⟨h', by rw [heap, hheap]; exact hrem, hst'⟩

/-- The starts pass 2 ^ 32. -/
theorem SackOp.stands_wrapped :
    ∃ h, heap (fun b => BitVec.ofNat 32 (2 ^ 32 - 10 + 5 * b)) 5 ⟨7, fun _ _ => none, fun _ => none, fun _ => .red⟩
        [.remove 1, .insert 3, .insert 1, .insert 2] = some h ∧
      Stands (fun b => BitVec.ofNat 32 (2 ^ 32 - 10 + 5 * b)) 5 [3, 2]
        (tree (fun b => BitVec.ofNat 32 (2 ^ 32 - 10 + 5 * b)) [.remove 1, .insert 3, .insert 1, .insert 2]) h :=
  SackOp.stands (show Allowed [.remove 1, .insert 3, .insert 1, .insert 2] by decide)
    ⟨by decide, BitVec.ofNat 32 (2 ^ 32 - 10), by decide⟩ (by decide) _

end Udx.SackNodes
